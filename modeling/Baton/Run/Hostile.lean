/-
# Run.Hostile — logs that are checksummed and otherwise arbitrary

What recovery may be given is any sequence of records that the decoder accepts: ids out
of order, tokens from the future, purges of live jobs.  `feed` applies such a sequence to
a state in replay mode, the way the fuzz target does: a record that is refused is passed
over.  The state stays in step, so the end of the replay builds a consistent state, and
the serialization of that state loads to the same bytes.
-/
import Baton.Run.Totality
import Baton.State.Checked
import Baton.State.InPlace

namespace Baton

open Theory Function

set_option autoImplicit false

namespace State

/-! ## Serialize and deserialize -/

section RoundTrip

variable {s : State} {iteration : IterationOrder}

theorem canonical_typed {image : StateImage} (typed : image.Typed) : (canonical image).Typed where
  __ := typed
  jobCount := by
    have count := typed.jobCount
    rwa [← (List.perm_insertionSort (fun a b : JobImage => a.id ≤ b.id) image.jobs).length_eq] at count
  idemCount := by
    have count := typed.idemCount
    rwa [← (List.perm_insertionSort (fun a b : IdemImage => a.key ≤ b.key) image.idem).length_eq] at count
  jobs := fun job mem => typed.jobs job ((List.perm_insertionSort _ _).mem_iff.1 mem)
  idem := fun entry mem => typed.idem entry ((List.perm_insertionSort _ _).mem_iff.1 mem)

/-- What is read of a serialized image are its three pieces. -/
theorem deserialize_pieces {image : StateImage} (typed : image.Typed)
    (short : (serializeImage image).length < 2 ^ 64) (options : StateOptions) (platform : Platform) :
    State.deserialize (serializeImage image) options platform =
      (StateBuilder.new options platform).checkedImage image >>= StateBuilder.finish := by
  unfold serializeImage at short
  simp only [List.length_append, ByteWriter.bytes] at short
  have short_meta : (encodeImageMeta image).length < 2 ^ 64 := by omega
  have short_jobs : (encodeImageJobs image.jobs).length < 2 ^ 64 := by omega
  have short_idem : (encodeImageIdem image.idem).length < 2 ^ 64 := by omega
  have last := ByteReader.bytes_append short_idem []
  rw [List.append_nil] at last
  have version : kSerializationVersion % 256 = kSerializationVersion := rfl
  unfold State.deserialize serializeImage
  rw [List.append_assoc, List.append_assoc, ByteReader.u8_append, version]
  dsimp only
  rw [if_neg (by simp), ByteReader.bytes_append short_meta]
  rw [ByteReader.bytes_append short_jobs]
  rw [last]
  exact StateBuilder.addImage_encode typed StateBuilder.finish

/-- A state whose numbers fit loads from its own serialization. -/
theorem deserialize_serialize (inv : s.StateInv nobody) (typed : (s.captureImage iteration).Typed)
    (inRange : s.InRange) (few : s.queueNames.length ≤ 2 ^ 32) (short : (s.serialize iteration).length < 2 ^ 64)
    (options : StateOptions) (platform : Platform) :
    ∃ t, State.deserialize (s.serialize iteration) options platform = .ok t ∧ StateBuilder.Restored s t := by
  have captured := @depicts_captured s iteration inv.shape
  have depicts : StateBuilder.Depicts s (canonical (s.captureImage iteration)) :=
    { captured with
      ids := ((List.perm_insertionSort _ _).map _).trans captured.ids
      jobs := fun x mem => captured.jobs x ((List.perm_insertionSort _ _).mem_iff.1 mem)
      idem := List.perm_insertionSort _ _ }
  obtain ⟨sound, complete⟩ := StateBuilder.checkedImage_spec depicts inv few options platform
  obtain ⟨b, image_ok⟩ := complete inRange
  obtain ⟨t, finished, restored⟩ := (sound b image_ok).finish depicts inv
  refine ⟨t, ?_, restored⟩
  have pieces := deserialize_pieces (canonical_typed typed) short options platform
  rw [image_ok] at pieces
  exact pieces.trans finished

end RoundTrip

/-! ## Feeding a log -/

/-- The records are applied one after the other, and the result of each is only looked
at: `none` when a `BATON_CHECK` fails. -/
def feed : List Record → State → Option State
  | [], s => some s
  | r :: rs, s => (InPlace.apply r s).bind fun result => feed rs result.2

section Feed

variable {s s' : State} {r : Record} {rs : List Record} {n : Nat}

/-- One record in replay mode: applied or refused, and refused means unchanged. -/
theorem Replaying.applied_or_refused (at_s : s.Replaying) (r : Record) :
    (∃ s', InPlace.apply r s = some (.ok (), s') ∧ s.apply r = .ok (some s')) ∨
      ∃ e, InPlace.apply r s = some (.error e, s) := by
  rw [InPlace.apply_eq]
  cases applied : s.apply r with
  | error e => exact Or.inr ⟨e, rfl⟩
  | ok next =>
    cases next with
    | none => exact absurd applied at_s.apply_some
    | some s' => exact Or.inl ⟨s', rfl, rfl⟩

theorem feed_append (rs ts : List Record) (s : State) : feed (rs ++ ts) s = (feed rs s).bind (feed ts) := by
  induction rs generalizing s with
  | nil => rfl
  | cons r rs ih =>
    rw [List.cons_append, feed, feed]
    cases InPlace.apply r s with
    | none => rfl
    | some result => exact ih result.2

/-- A record of any kind keeps what holds of every replayed state. -/
theorem Replaying.feed (at_s : s.Replaying) (wired : s.ledger.Wired n) (begun : s.ledger.Begun)
    (wire : ∀ r ∈ rs, r.Wire) : ∃ s' m, State.feed rs s = some s' ∧ s'.Replaying ∧ m ≤ n + rs.length ∧
      s'.ledger.Wired m ∧ s'.ledger.Begun := by
  induction rs generalizing s n with
  | nil => exact ⟨s, n, rfl, at_s, Nat.le_refl _, wired, begun⟩
  | cons r rs ih =>
    have wire_rest : ∀ r ∈ rs, r.Wire := fun r mem => wire r (List.mem_cons_of_mem _ mem)
    rw [State.feed, List.length_cons]
    rcases at_s.applied_or_refused r with ⟨next, ran, applied⟩ | ⟨e, ran⟩
    · obtain ⟨at_next, ledger⟩ := at_s.apply applied
      have step := Ledger.apply_iff_step.1 ledger
      have wired_next := wired.step step (wire r List.mem_cons_self)
      rw [ran]
      obtain ⟨s', m, fed, at_s', bound, wired'⟩ := ih at_next wired_next (begun.step step) wire_rest
      exact ⟨s', m, fed, at_s', by omega, wired'⟩
    · rw [ran]
      obtain ⟨s', m, fed, at_s', bound, wired'⟩ := ih at_s wired begun wire_rest
      exact ⟨s', m, fed, at_s', by omega, wired'⟩

/-- The state can be collected and read again from its own bytes. -/
theorem endReplay_reload {iteration : IterationOrder} {graceMs : Int} (inv : s.StateInv nobody)
    (wired : s.ledger.Wired n) (count : n + 1 < 2 ^ 64) (few : s.queueNames.length ≤ 2 ^ 32)
    (ended : s.endReplay iteration graceMs = some s') (it : IterationOrder)
    (short : (s'.serialize it).length < 2 ^ 64) (options : StateOptions) (platform : Platform) :
    ∃ t, State.deserialize (s'.serialize it) options platform = .ok t ∧
      ∀ it', t.serialize it' = s'.serialize it := by
  obtain ⟨inv', -, -, -, -, -, sub, -⟩ := endReplay_ledger inv ended
  have wired' := wired.sub sub
  have few' : s'.queueNames.length ≤ 2 ^ 32 := by rwa [queueNames_ledger sub.totals]
  obtain ⟨t, loaded, restored⟩ := deserialize_serialize inv' (typed_of_wired inv'.shape wired' count few')
    (inRange_of_wired inv'.shape wired') few' short options platform
  exact ⟨t, loaded, fun it' => serialize_ledger restored.inv.shape inv'.shape restored.ledger⟩

end Feed

/-- Any log of records that decode, replayed into an empty state: every record is applied
or refused, and a refused one changes nothing.  With no more jobs than the timing wheel
has nodes and no more queues than an index has values, the end of the replay at any
clock gives a state that passes its own check and loads from its own bytes. -/
theorem hostile_log (options : StateOptions) (platform : Platform) (rs : List Record)
    (decoded : ∀ r ∈ rs, ∃ type payload, decodeRecord type payload = .ok r)
    (count : rs.length + 1 < 2 ^ 64) :
    ∃ s, feed rs (fresh options platform) = some s ∧
      (∀ front r back, rs = front ++ r :: back →
        ∃ u, feed front (fresh options platform) = some u ∧
          ((∃ u', InPlace.apply r u = some (.ok (), u')) ∨ ∃ e, InPlace.apply r u = some (.error e, u))) ∧
      ∀ wall mono iteration graceMs, s.jobCount ≤ TimingWheel.kMaxNodes → s.queueNames.length ≤ 2 ^ 32 →
        ∃ s', (s.setNow wall mono).endReplay iteration graceMs = some s' ∧
          s'.checkInvariants = .ok () ∧
          ∀ it, (s'.serialize it).length < 2 ^ 64 → ∀ options' platform',
            ∃ t, State.deserialize (s'.serialize it) options' platform' = .ok t ∧
              ∀ it', t.serialize it' = s'.serialize it := by
  have wire : ∀ r ∈ rs, r.Wire := by
    intro r mem
    obtain ⟨type, payload, of_bytes⟩ := decoded r mem
    exact (wire_of_decode of_bytes).1
  have wired : (fresh options platform).ledger.Wired 0 := by
    exact Ledger.wired_empty
  have begun : (fresh options platform).ledger.Begun := by
    exact nofun
  have at_start := replaying_fresh options platform
  obtain ⟨s, m, fed, at_s, bound, wired_s, begun_s⟩ := at_start.feed wired begun wire
  refine ⟨s, fed, ?_, ?_⟩
  · intro front r back split
    have wire_front : ∀ r ∈ front, r.Wire := by
      intro r mem
      exact wire r (split ▸ List.mem_append_left _ mem)
    obtain ⟨u, -, fed_front, at_u, -⟩ := at_start.feed wired begun wire_front
    refine ⟨u, fed_front, (at_u.applied_or_refused r).imp_left ?_⟩
    rintro ⟨u', ran, -⟩
    exact ⟨u', ran⟩
  · intro wall mono iteration graceMs jobs queues
    have inv : (s.setNow wall mono).StateInv nobody := at_s.inv.unindexed (Nat.le_refl _) (Nat.le_refl _)
    obtain ⟨s', ended⟩ := @endReplay_some (s.setNow wall mono) iteration graceMs inv jobs
    obtain ⟨inv', -, -, -, -, -, sub, -⟩ := endReplay_ledger inv ended
    refine ⟨s', ended, checkInvariants_ok inv' ?_, ?_⟩
    · exact begun_ledger.1 fun id job found => begun_s id job (sub.found found)
    intro it short options' platform'
    have wired_now : (s.setNow wall mono).ledger.Wired m := wired_s
    exact endReplay_reload inv wired_now (by omega) queues ended it short options' platform'

/-- A job is enqueued, the same record comes again and is refused, and the job is leased. -/
theorem hostile_log_repeated :
    ∃ s u e s', feed [sampleEnqueued, sampleEnqueued, sampleLeased] (fresh {} samplePlatform) = some s ∧
      feed [sampleEnqueued] (fresh {} samplePlatform) = some u ∧
      InPlace.apply sampleEnqueued u = some (.error e, u) ∧
      (s.setNow 100 0).endReplay .asListed 1000 = some s' ∧ s'.checkInvariants = .ok () ∧
      ∃ t, State.deserialize (s'.serialize .asListed) {} samplePlatform = .ok t ∧
        t.serialize .asListed = s'.serialize .asListed := by
  have decoded : ∀ r ∈ [sampleEnqueued, sampleEnqueued, sampleLeased], ∃ type payload,
      decodeRecord type payload = .ok r := by
    intro r mem
    have wire : r.Wire := by
      simp only [List.mem_cons, List.not_mem_nil, or_false, or_self_left] at mem
      rcases mem with rfl | rfl
      · unfold sampleEnqueued Record.Wire
        decide
      · unfold sampleLeased Record.Wire
        decide
    exact ⟨r.typeOf, r.encode, decodeRecord_encode wire⟩
  obtain ⟨s, fed, each, final⟩ := hostile_log {} samplePlatform _ decoded (by decide)
  have small : (feed [sampleEnqueued, sampleEnqueued, sampleLeased] (fresh {} samplePlatform)).all
      (fun s => s.jobCount ≤ 1 ∧ s.queueNames.length ≤ 1) = true := by decide +kernel
  rw [fed] at small
  have small : s.jobCount ≤ 1 ∧ s.queueNames.length ≤ 1 := of_decide_eq_true small
  obtain ⟨s', ended, checked, again⟩ := final 100 0 .asListed 1000
    (Nat.le_trans small.1 (by decide)) (Nat.le_trans small.2 (by decide))
  obtain ⟨u, fed_u, outcome⟩ := each [sampleEnqueued] sampleEnqueued [sampleLeased] rfl
  have refused : (((feed [sampleEnqueued] (fresh {} samplePlatform)).bind
      fun u => InPlace.apply sampleEnqueued u).map fun result => result.1.ok?) = some false := by
    decide +kernel
  rw [fed_u] at refused
  obtain ⟨e, ran⟩ : ∃ e, InPlace.apply sampleEnqueued u = some (.error e, u) := by
    refine outcome.resolve_left ?_
    rintro ⟨u', ran⟩
    rw [Option.bind_some, ran] at refused
    cases refused
  have short : (((feed [sampleEnqueued, sampleEnqueued, sampleLeased] (fresh {} samplePlatform)).bind
      fun s => (s.setNow 100 0).endReplay .asListed 1000).all
        fun s' => (s'.serialize .asListed).length < 2 ^ 64) = true := by decide +kernel
  rw [fed, Option.bind_some, ended, Option.all_some, decide_eq_true_eq] at short
  obtain ⟨t, loaded, same⟩ := again .asListed short {} samplePlatform
  exact ⟨s, u, e, s', fed, fed_u, ran, ended, checked, t, loaded, same .asListed⟩

/-! ## More jobs than a heap has room for -/

section Flood

/-- A job without a payload for one queue, due at time zero. -/
def plainEnqueued (id : Nat) : JobEnqueued where
  id := id
  queue := [113]
  payload := []
  priority := 0
  runAt := 0
  maxAttempts := 1
  backoffBaseMs := 0
  backoffCapMs := 0
  idemKey := []
  idemExpiresAt := 0
  at_ := 0

/-- The records of `n` such jobs. -/
def flood (n : Nat) : List Record := (List.range n).map fun i => .jobEnqueued (plainEnqueued (i + 1))

theorem flood_wire {n : Nat} (few : n ≤ 2 ^ 32) : ∀ r ∈ flood n, r.Wire := by
  intro r mem
  obtain ⟨i, listed, rfl⟩ := List.mem_map.1 mem
  have below := List.mem_range.1 listed
  have zero : TimeInRange 0 := by decide
  have word : Word (i + 1) := by
    unfold Word
    omega
  have byte : Word 1 := by decide
  have empty : Word 0 := by decide
  exact ⟨word, byte, empty, zero, empty, zero, zero⟩

/-- After the flood the ids up to `n` are jobs of the one kind. -/
theorem feed_flood (n : Nat) :
    ∃ s, feed (flood n) (fresh {} samplePlatform) = some s ∧ s.Replaying ∧ s.nextJobId = n + 1 ∧
      ∀ id, s.ledger.jobs id =
        if 0 < id ∧ id ≤ n then some (LedgerJob.enqueued (plainEnqueued 1)) else none := by
  induction n with
  | zero =>
    refine ⟨_, rfl, replaying_fresh {} samplePlatform, rfl, ?_⟩
    intro id
    rw [if_neg (by omega)]
    rfl
  | succ n ih =>
    obtain ⟨s, fed, at_s, next, jobs⟩ := ih
    set r := plainEnqueued (n + 1)
    have accepted : s.ledger.apply (.jobEnqueued r) = .ok
        { s.ledger with
          jobs := update s.ledger.jobs r.id (some (LedgerJob.enqueued r))
          totals := update s.ledger.totals r.queue
            (some (State.addEnqueued ((s.ledger.totals r.queue).getD {})))
          nextJobId := r.id + 1 } := by
      have expected : ¬ r.id ≠ s.ledger.nextJobId := not_not.2 next.symm
      show (if r.id ≠ s.ledger.nextJobId then _ else _) = _
      rw [if_neg expected]
      rfl
    obtain ⟨s', applied, ledger⟩ := at_s.apply_of_ledger accepted
    obtain ⟨at_s', -⟩ := at_s.apply applied
    refine ⟨s', ?_, at_s', congrArg Ledger.nextJobId ledger, ?_⟩
    · have more : flood (n + 1) = flood n ++ [.jobEnqueued r] := by
        unfold flood
        rw [List.range_succ, List.map_append]
        rfl
      rw [more, feed_append, fed]
      show (InPlace.apply (.jobEnqueued r) s).bind _ = _
      rw [InPlace.apply_eq, applied]
      rfl
    · intro id
      rw [ledger]
      show update s.ledger.jobs (n + 1) _ id = _
      rw [update_apply, jobs]
      by_cases last : id = n + 1
      · rw [if_pos last, if_pos (by omega)]
        rfl
      · rw [if_neg last]
        by_cases known : 0 < id ∧ id ≤ n
        · rw [if_pos known, if_pos (by omega)]
        · rw [if_neg known, if_neg (by omega)]

end Flood

/-- A log of 2^32 jobs that are due in one queue decodes and is applied, record by
record; the end of the replay fails the check on the size of the heap. -/
theorem hostile_log_flood :
    ∃ (rs : List Record) (s : State), (∀ r ∈ rs, ∃ type payload, decodeRecord type payload = .ok r) ∧
      rs.length + 1 < 2 ^ 64 ∧ feed rs (fresh {} samplePlatform) = some s ∧
      ∀ iteration graceMs, (s.setNow 0 0).endReplay iteration graceMs = none := by
  obtain ⟨s, fed, at_s, next, jobs⟩ := feed_flood (2 ^ 32)
  have count : (flood (2 ^ 32)).length = 2 ^ 32 := by
    unfold flood
    rw [List.length_map, List.length_range]
  have found_all : ∀ id job, s.findJob id = some job →
      job.queue = [113] ∧ job.state.isPending = true ∧ job.runAt = 0 := by
    intro id job found
    have at_id := ledger_jobs found
    rw [jobs] at at_id
    split at at_id
    · have same : LedgerJob.enqueued (plainEnqueued 1) = job.ledger := Option.some.inj at_id
      have pending : toPersisted job.state = .kPending := (congrArg LedgerJob.state same).symm
      refine ⟨(congrArg LedgerJob.queue same).symm, ?_, (congrArg LedgerJob.runAt same).symm⟩
      rw [isPending_persisted]
      exact decide_eq_true pending
    · cases at_id
  have decoded : ∀ r ∈ flood (2 ^ 32), ∃ type payload, decodeRecord type payload = .ok r := fun r mem =>
    ⟨r.typeOf, r.encode, decodeRecord_encode (flood_wire (Nat.le_refl _) r mem)⟩
  refine ⟨_, s, decoded, by rw [count]; decide, fed, ?_⟩
  intro iteration graceMs
  cases ended : (s.setNow 0 0).endReplay iteration graceMs with
  | none => rfl
  | some s' =>
    have inv : (s.setNow 0 0).StateInv nobody := at_s.inv.unindexed (Nat.le_refl _) (Nat.le_refl _)
    obtain ⟨t, -, -, rebuilt, inv_t, -⟩ := endReplay_spec inv ended
    obtain ⟨-, -, settled, -⟩ := rebuildDerived_spec inv.shape.live inv.tokens inv.fits rebuilt
    have ready : ∀ id job, t.findJob id = some job → job.queue = [113] ∧ job.state = .kReady := by
      intro id job found
      rw [settled] at found
      obtain ⟨before, known, rfl⟩ := Option.map_eq_some_iff.1 found
      obtain ⟨queue, pending, due⟩ := found_all id before known
      unfold State.settled
      rw [if_pos pending]
      refine ⟨queue, ?_⟩
      show State.pendingState _ before = _
      unfold State.pendingState
      rw [if_neg]
      rintro (replaying | later)
      · cases replaying
      · rw [due] at later
        exact absurd later (Int.lt_irrefl _)
    have listed : ∀ id, 0 < id → id ≤ 2 ^ 32 → (t.findJob id).isSome := by
      intro id positive last
      have known := jobs id
      rw [if_pos ⟨positive, last⟩] at known
      obtain ⟨job, found, -⟩ := Option.map_eq_some_iff.1 known
      rw [settled, Option.isSome_map]
      exact Option.isSome_of_eq_some found
    have many : 2 ^ 32 ≤ t.jobCount := by
      have length := @Engine.length_le_jobCount t (List.range' 1 (2 ^ 32)) List.nodup_range' fun id mem => by
        have bounds := List.mem_range'_1.1 mem
        exact listed id (by omega) (by omega)
      rwa [List.length_range'] at length
    obtain ⟨q, queue⟩ : ∃ q, t.queues.lookup [113] = some q := by
      obtain ⟨job, found⟩ := Option.isSome_iff_exists.1 (listed 1 Nat.one_pos (by decide))
      have known := inv_t.shape.jobQueues 1 job found
      rw [(ready 1 job found).1] at known
      exact Option.isSome_iff_exists.1 known
    have fit := inv_t.shape.heaps.short [113] q.ready (congrArg (Option.map Queue.ready) queue)
    rw [World.ready_all inv_t queue ready] at fit
    unfold kNotInHeap at fit
    omega

end State

end Baton
