/-
# State.ImageLoad — a state built from an image of itself

The builder, fed with an image of a state (`Depicts`), ends with a state that has the same
ledger: `Building` says how far it has got.  Nothing here looks at bytes; what the
pieces read back as is `State.ImageCodec`.
-/
import Baton.State.ImageCodec
import Baton.State.Frame
import Baton.Theory.Loop

namespace Baton

open Theory Function

set_option autoImplicit false

namespace State

theorem ledger_idem {s : State} (shape : Shape s) (key : Bytes) :
    s.ledger.idem key = (s.idemImages.find? fun i => decide (i.key = key)).map
      fun i => (i.jobId, i.expiresAt) := by
  show (s.findIdem key).map _ = _
  rw [findIdem_eq shape, idemImages, List.find?_map, Option.map_map, Option.map_map]
  rfl

theorem idemImages_keys_nodup {s : State} (shape : Shape s) :
    (s.idemImages.map IdemImage.key).Nodup := by
  -- two entries of one key would be one node
  have injective : ∀ n ∈ s.idemOrder, ∀ m ∈ s.idemOrder,
      n.entry.key.bytes = m.entry.key.bytes → n.node = m.node := by
    intro n mem_n m mem_m same
    have at_n := shape.idem.indexed n mem_n
    have at_m := shape.idem.indexed m mem_m
    rw [same, at_m] at at_n
    exact (Option.some.inj at_n).symm
  rw [idemImages, List.map_map]
  have nodes := shape.idem.nodup
  rw [List.nodup_map_iff_inj_on (List.Nodup.of_map _ nodes)]
  intro n mem_n m mem_m same
  exact List.inj_on_of_nodup_map nodes mem_n mem_m (injective n mem_n m mem_m same)

theorem queueNames_perm (s : State) : s.queueNames.Perm s.queues.keys := List.perm_insertionSort _ _

theorem queueNames_nodup (s : State) : s.queueNames.Nodup :=
  (queueNames_perm s).nodup_iff.2 s.queues.nodupKeys

theorem mem_queueNames {s : State} {name : Bytes} :
    name ∈ s.queueNames ↔ (s.totalsOf name).isSome := by
  rw [(queueNames_perm s).mem_iff, totalsOf, Option.isSome_map, AList.lookup_isSome]
  exact AList.mem_keys.symm

end State

namespace StateBuilder

/-- An image of the state, with its jobs and its keys in any order. -/
structure Depicts (s : State) (image : StateImage) : Prop where
  nextJobId : image.nextJobId = s.nextJobId
  nextToken : image.nextToken = s.nextToken
  queues : image.queues = s.queueNames.map s.queueImage
  ids : (image.jobs.map JobImage.id).Perm s.jobs.keys
  jobs : ∀ x ∈ image.jobs, ∃ job, s.findJob x.id = some job ∧ s.jobImage job = x
  idem : image.idem.Perm s.idemImages

/-- The builder has the queues of the state, the jobs of the list and the keys of the
list. -/
structure Building (s : State) (done : List JobImage) (keys : List IdemImage) (b : StateBuilder) : Prop where
  inv : b.state.StateInv State.nobody
  replaying : b.state.replaying = true
  unready : b.state.Unready
  haveMeta : b.haveMeta = true
  names : b.queueByIndex = s.queueNames
  totals : b.state.totalsOf = s.totalsOf
  nextJobId : b.state.nextJobId = s.nextJobId
  nextToken : b.state.nextToken = s.nextToken
  jobs : ∀ id, b.state.ledger.jobs id = if id ∈ done.map JobImage.id then s.ledger.jobs id else none
  idem : b.state.idemImages = keys
  jobsAdded : b.jobsAdded = done.length
  idemAdded : b.idemAdded = keys.length

/-! ## The meta piece -/

/-- The builder has no jobs and no keys, and the queues of the list. -/
structure Naming (s : State) (done : List Bytes) (b : StateBuilder) : Prop where
  inv : b.state.StateInv State.nobody
  replaying : b.state.replaying = true
  unknown : ∀ id, b.state.findJob id = none
  keyless : b.state.idemOrder = []
  fresh : b.haveMeta = false
  names : b.queueByIndex = done
  totals : ∀ name, b.state.totalsOf name = if name ∈ done then s.totalsOf name else none
  nextJobId : b.state.nextJobId = s.nextJobId
  nextToken : b.state.nextToken = s.nextToken
  jobsAdded : b.jobsAdded = 0
  idemAdded : b.idemAdded = 0

variable {s : State} {b b' : StateBuilder} {image : StateImage}

/-- What comes next is not among what was taken. -/
theorem fresh_of_nodup {α β : Type} {f : α → β} {all taken rest : List α} {x : α} (nodup : (all.map f).Nodup)
    (split : all = taken ++ x :: rest) : f x ∉ taken.map f := by
  rw [split, List.map_append, List.map_cons] at nodup
  intro mem
  exact (List.nodup_append.1 nodup).2.2 _ mem _ List.mem_cons_self rfl

theorem withQueue_state (b : StateBuilder) (queue : QueueImage) :
    (b.withQueue queue).state =
      (b.state.getOrCreateQueue queue.name).addTotals queue.name fun _ => queue.totals := rfl

theorem Naming.withQueue {names : List Bytes} {name : Bytes} {totals : QueueTotals}
    (naming : Naming s names b) (known : s.totalsOf name = some totals) :
    Naming s (names ++ [name]) (b.withQueue (s.queueImage name)) where
  __ := naming
  inv := by
    rw [withQueue_state]
    exact (naming.inv.getOrCreateQueue name).addTotals
  names := by
    show b.queueByIndex ++ [name] = _
    rw [naming.names]
  totals := by
    intro name'
    have image : (s.queueImage name).totals = totals := by
      show ((s.findQueue name).map Queue.totals).getD {} = totals
      have found : (s.findQueue name).map Queue.totals = some totals := known
      rw [found]
      rfl
    have ledgers := congrArg Ledger.totals
      (@State.ledger_addTotals (b.state.getOrCreateQueue name) name
        fun _ => (s.queueImage name).totals)
    rw [State.ledger_getOrCreateQueue] at ledgers
    have here := congrFun ledgers name'
    refine here.trans ?_
    simp only [Ledger.addTotals, update_self, Option.map_some, update_idem,
      update_apply, image, List.mem_append, List.mem_singleton]
    by_cases same : name' = name
    · rw [if_pos same, if_pos (Or.inr same), same, known]
    · simp only [same, or_false, if_false]
      exact naming.totals name'

theorem Naming.unknown_queue {names : List Bytes} {name : Bytes} (naming : Naming s names b)
    (new : name ∉ names) : b.state.findQueue name = none := by
  have totals := naming.totals name
  rw [if_neg new] at totals
  exact Option.map_eq_none_iff.1 totals

/-- The queues of the state go in one after the other. -/
theorem Naming.checkedQueues (naming : Naming s [] b) :
    (∀ b', (s.queueNames.map s.queueImage).foldlM checkedQueue b = .ok b' → Naming s s.queueNames b') ∧
      ((∀ name ∈ s.queueNames, name ≠ []) →
        ∃ b', (s.queueNames.map s.queueImage).foldlM checkedQueue b = .ok b') := by
  have names : (s.queueNames.map s.queueImage).map QueueImage.name = s.queueNames := by
    rw [List.map_map]
    exact List.map_id _
  have nodup := State.queueNames_nodup s
  have spec := foldlM_spec (P := fun taken => Naming s (taken.map QueueImage.name))
    (Q := fun queue => queue.name ≠ []) (f := checkedQueue) (s.queueNames.map s.queueImage) ?_ naming
  · rw [names] at spec
    refine ⟨spec.1, fun named => spec.2 fun queue mem => ?_⟩
    obtain ⟨name, listed, rfl⟩ := List.mem_map.1 mem
    exact named name listed
  · intro taken queue rest b split naming
    have mem : queue ∈ s.queueNames.map s.queueImage := by simp [split]
    obtain ⟨name, listed, rfl⟩ := List.mem_map.1 mem
    obtain ⟨totals, found⟩ := Option.isSome_iff_exists.1 (State.mem_queueNames.1 listed)
    have new := fresh_of_nodup (names.symm ▸ nodup) split
    have absent : ¬ (b.state.findQueue (s.queueImage name).name).isSome = true := by
      rw [naming.unknown_queue new]
      simp
    unfold checkedQueue
    constructor
    · intro b' built
      obtain ⟨-, built⟩ := Result.check_ok built
      obtain ⟨-, built⟩ := Result.check_ok built
      cases built
      rw [List.map_append]
      exact naming.withQueue found
    · intro named
      rw [if_neg (by simpa using named), if_neg absent]
      exact ⟨_, rfl⟩

theorem naming_start (s : State) (options : StateOptions) (platform : Platform)
    (tokens : 0 < s.nextToken) :
    Naming s [] ((StateBuilder.new options platform).withCounters s.nextJobId s.nextToken) where
  inv := by
    have empty := State.inv_empty options platform true
    have nothing : ∀ (P : Nat → Job → Prop) id job,
        ((StateBuilder.new options platform).withCounters s.nextJobId s.nextToken).state.findJob id =
          some job → P id job := by
      intro P id job found
      cases found
    exact ⟨empty.shape.unindexed, tokens, nothing _, nothing _, nothing _⟩
  replaying := rfl
  unknown := fun _ => rfl
  keyless := rfl
  fresh := rfl
  names := rfl
  totals := by
    intro name
    rfl
  nextJobId := rfl
  nextToken := rfl
  jobsAdded := rfl
  idemAdded := rfl

/-- The meta piece of the image of a state. -/
theorem checkedMeta_spec (depicts : Depicts s image) (options : StateOptions) (platform : Platform)
    (tokens : 0 < s.nextToken) :
    (∀ b, (new options platform).checkedMeta image = .ok b → Building s [] [] b) ∧
      (0 < s.nextJobId → (∀ name ∈ s.queueNames, name ≠ []) →
        ∃ b, (new options platform).checkedMeta image = .ok b) := by
  obtain ⟨sound, complete⟩ := (naming_start s options platform tokens).checkedQueues
  unfold checkedMeta
  rw [depicts.nextJobId, depicts.nextToken, depicts.queues]
  constructor
  · intro b built
    obtain ⟨-, built⟩ := Result.check_ok built
    obtain ⟨-, built⟩ := Result.check_ok built
    cases queues : (s.queueNames.map s.queueImage).foldlM checkedQueue
        ((new options platform).withCounters s.nextJobId s.nextToken) with
    | error e =>
      rw [queues] at built
      cases built
    | ok named =>
      rw [queues] at built
      cases built
      have naming := sound named queues
      refine ⟨naming.inv, naming.replaying, ?_, rfl, naming.names, ?_, naming.nextJobId,
        naming.nextToken, ?_, ?_, naming.jobsAdded, naming.idemAdded⟩
      · intro id job found
        have none_here := naming.unknown id
        have found' : named.state.findJob id = some job := found
        rw [none_here] at found'
        cases found'
      · funext name
        rw [naming.totals]
        split
        · rfl
        · rename_i absent
          have unnamed : ¬ (s.totalsOf name).isSome = true :=
            fun known => absent (State.mem_queueNames.2 known)
          rw [Option.not_isSome_iff_eq_none] at unnamed
          exact unnamed.symm
      · intro id
        exact State.ledger_missing (naming.unknown id)
      · show named.state.idemImages = []
        unfold State.idemImages
        rw [naming.keyless]
        rfl
  · intro ids named
    obtain ⟨b, built⟩ := complete named
    refine ⟨{ b with haveMeta := true }, ?_⟩
    have fresh : ¬ (new options platform).haveMeta = true := Bool.false_ne_true
    rw [if_neg fresh, if_neg (by omega), built]
    rfl

/-! ## The jobs -/

section Jobs

variable {jobs : List JobImage} {keys : List IdemImage} {id : Nat} {job : Job}

theorem ledger_decoded (platform : Platform) (s : State) (job : Job) :
    ((s.jobImage job).decoded platform job.queue).ledger = job.ledger := by
  unfold Job.ledger JobImage.decoded State.jobImage
  have state : toPersisted (fromPersisted (toPersisted job.state)) = toPersisted job.state := by
    cases job.state <;> rfl
  rw [state]
  rfl

theorem fits_decoded {nextJobId nextToken : Nat} (platform : Platform) (s : State)
    (fits : JobFits nextJobId nextToken id job) :
    JobFits nextJobId nextToken id ((s.jobImage job).decoded platform job.queue) where
  __ := fits
  token := by
    have same : (fromPersisted (toPersisted job.state)).holdsToken = job.state.holdsToken := by
      cases job.state <;> rfl
    exact same.trans fits.token

/-- The index of a queue leads back to it. -/
theorem queue_at_index {name : Bytes} (few : s.queueNames.length ≤ 2 ^ 32)
    (known : (s.totalsOf name).isSome) : s.queueNames[s.queueIndex name]? = some name := by
  have mem := State.mem_queueNames.2 known
  have bound := List.idxOf_lt_length_of_mem mem
  unfold State.queueIndex
  rw [Nat.mod_eq_of_lt (by omega), List.getElem?_eq_getElem bound, List.getElem_idxOf]

theorem insertJob_state (b : StateBuilder) (job : Job) :
    (b.insertJob job).state =
      let added := { b.state with
        jobs := b.state.jobs.insert job.id job
        memoryBytes := b.state.memoryBytes + b.state.platform.jobBytes job }.modifyQueue job.queue
          (Queue.incrCount job.state)
      if job.state = .kDead then added.insertDead job.queue job.id else added := by
  unfold StateBuilder.insertJob
  split <;> rfl

/-- In replay a job is in no index but the dead-letter set. -/
theorem placed_insertJob (inv : b.state.StateInv State.nobody) (replaying : b.state.replaying = true)
    (fresh : b.state.findJob job.id = none) (known : (b.state.totalsOf job.queue).isSome)
    (unready : job.state ≠ .kReady) :
    State.Placed b.state (b.insertJob job).state job.id job := by
  obtain ⟨q, queue⟩ : ∃ q, b.state.queues.lookup job.queue = some q := by
    rw [State.totalsOf, Option.isSome_map] at known
    exact Option.isSome_iff_exists.1 known
  have added := inv.shape.moved_addJob fresh rfl queue
  have unarmed : State.expectedKind true job.state = none := rfl
  unfold State.Placed
  rw [insertJob_state, decide_eq_false unready, replaying, unarmed]
  split
  · rename_i dead
    have moved := added.trans (added.shape.moved_insertDead added.found)
    rw [added.heap_at, added.kind_at] at moved
    rw [decide_eq_true dead]
    exact moved
  · rename_i alive
    rw [decide_eq_false alive]
    exact added

theorem Building.insertJob (building : Building s jobs keys b) (found : s.findJob id = some job)
    (inv : s.StateInv State.nobody) (new : id ∉ jobs.map JobImage.id) :
    Building s (jobs ++ [s.jobImage job]) keys
      (b.insertJob ((s.jobImage job).decoded b.state.platform job.queue)) := by
  have job_id : job.id = id := inv.shape.jobIds id job found
  set decoded := (s.jobImage job).decoded b.state.platform job.queue with decoded_eq
  have decoded_id : decoded.id = id := job_id
  have missing : b.state.findJob decoded.id = none := by
    have here := building.jobs id
    rw [if_neg new] at here
    rw [decoded_id]
    exact Option.map_eq_none_iff.1 here
  have unready : decoded.state ≠ .kReady := by
    show fromPersisted (toPersisted job.state) ≠ .kReady
    cases job.state <;> simp [fromPersisted, toPersisted]
  have known : (b.state.totalsOf decoded.queue).isSome := by
    rw [building.totals, State.totalsOf, Option.isSome_map]
    exact inv.shape.jobQueues id job found
  have placed := placed_insertJob building.inv building.replaying missing known unready
  have fits : JobFits b.state.nextJobId b.state.nextToken decoded.id decoded := by
    rw [building.nextJobId, building.nextToken, decoded_id]
    exact fits_decoded b.state.platform s (inv.fits id job found)
  have ledger := placed.ledger
  refine ⟨(building.inv.placed placed fits).weaken (by simp [State.nobody]), ?_, ?_, building.haveMeta,
    building.names, ?_, ?_, ?_, ?_, ?_, ?_, building.idemAdded⟩
  · rw [placed.kept.replaying, building.replaying]
  · intro id' job' found'
    rw [placed.jobs, update_apply] at found'
    split at found'
    · cases found'
      exact unready
    · exact building.unready id' job' found'
  · rw [placed.kept.totals, building.totals]
  · rw [placed.kept.nextJobId, building.nextJobId]
  · rw [placed.kept.nextToken, building.nextToken]
  · intro id'
    rw [ledger]
    show update b.state.ledger.jobs decoded.id (some decoded.ledger) id' = _
    have image_id : (s.jobImage job).id = id := job_id
    rw [update_apply, decoded_id]
    by_cases same : id' = id
    · rw [if_pos same, if_pos (by simp [image_id, same]), same, State.ledger_jobs found, decoded_eq,
        ledger_decoded]
    · rw [if_neg same, building.jobs id']
      simp [image_id, same]
  · show (b.insertJob decoded).state.idemImages = keys
    unfold State.idemImages
    rw [placed.kept.idemOrder]
    exact building.idem
  · show b.jobsAdded + 1 = _
    rw [building.jobsAdded, List.length_append]
    rfl

/-- What the checks of the builder ask of a job of the state. -/
structure JobInRange (job : Job) : Prop where
  id : job.id ≠ 0
  runAt : TimeInRange job.runAt
  createdAt : TimeInRange job.createdAt
  finishedAt : TimeInRange job.finishedAt
  leaseExpiresAt : TimeInRange job.leaseExpiresAt

theorem Building.checkedJob (building : Building s jobs keys b) (found : s.findJob id = some job)
    (inv : s.StateInv State.nobody) (few : s.queueNames.length ≤ 2 ^ 32) (new : id ∉ jobs.map JobImage.id) :
    (∀ b', b.checkedJob (s.jobImage job) = .ok b' → Building s (jobs ++ [s.jobImage job]) keys b') ∧
      (JobInRange job → ∃ b', b.checkedJob (s.jobImage job) = .ok b') := by
  have fits := inv.fits id job found
  have job_id : job.id = id := inv.shape.jobIds id job found
  have known : (s.totalsOf job.queue).isSome := by
    rw [State.totalsOf, Option.isSome_map]
    exact inv.shape.jobQueues id job found
  have queue : b.queueByIndex[(s.jobImage job).queue]? = some job.queue := by
    rw [building.names]
    exact queue_at_index few known
  have missing : ¬ (b.state.findJob (s.jobImage job).id).isSome = true := by
    have here := building.jobs id
    rw [if_neg new] at here
    have none_here : b.state.findJob id = none := Option.map_eq_none_iff.1 here
    rw [show (s.jobImage job).id = id from job_id, none_here]
    simp
  have next := building.insertJob found inv new
  constructor
  · intro b' built
    unfold StateBuilder.checkedJob at built
    split at built
    · cases built
    rw [queue] at built
    dsimp only at built
    obtain ⟨-, rfl⟩ := StateBuilder.acceptJob_ok.1 built
    exact next
  · intro inRange
    refine ⟨b.insertJob ((s.jobImage job).decoded b.state.platform job.queue), ?_⟩
    unfold StateBuilder.checkedJob
    have known_id : ¬ ((s.jobImage job).id = 0 ∨ b.state.nextJobId ≤ (s.jobImage job).id) := by
      rintro (zero | unknown)
      · exact inRange.id zero
      · have below := fits.known
        rw [building.nextJobId, show (s.jobImage job).id = id from job_id] at unknown
        omega
    have times : StateBuilder.badTimes ((s.jobImage job).decoded b.state.platform job.queue) = false := by
      have runAt := timeInRange_iff.2 inRange.runAt
      have createdAt := timeInRange_iff.2 inRange.createdAt
      have finishedAt := timeInRange_iff.2 inRange.finishedAt
      have leaseExpiresAt := timeInRange_iff.2 inRange.leaseExpiresAt
      simp [StateBuilder.badTimes, JobImage.decoded, State.jobImage, runAt, createdAt, finishedAt,
        leaseExpiresAt]
    have decoded := fits_decoded b.state.platform s fits
    have issued := decoded.issued
    rw [← building.nextToken] at issued
    rw [if_neg known_id, queue]
    dsimp only
    rw [if_neg missing]
    exact StateBuilder.acceptJob_ok.2 ⟨⟨times, issued, decoded.token, decoded.attempts⟩, rfl⟩

theorem Building.jobs_of (building : Building s [] keys b) (depicts : Depicts s image)
    (inv : s.StateInv State.nobody) (few : s.queueNames.length ≤ 2 ^ 32) :
    (∀ b', b.checkedJobs image.jobs = .ok b' → Building s image.jobs keys b') ∧
      ((∀ x ∈ image.jobs, ∀ job, s.findJob x.id = some job → JobInRange job) →
        ∃ b', b.checkedJobs image.jobs = .ok b') := by
  refine foldlM_spec (P := fun taken => Building s taken keys) _ (fun taken x rest b split building => ?_) building
  obtain ⟨job, found, shown⟩ := depicts.jobs x (by simp [split])
  have new := fresh_of_nodup (depicts.ids.nodup_iff.2 s.jobs.nodupKeys) split
  have checked := building.checkedJob found inv few new
  rw [shown] at checked
  exact ⟨checked.1, fun inRange => checked.2 (inRange job found)⟩

end Jobs

/-! ## The keys -/

section Keys

variable {jobs : List JobImage} {keys : List IdemImage} {entry : IdemImage}

theorem Building.upsertIdem (building : Building s jobs keys b) (new : entry.key ∉ keys.map IdemImage.key) :
    Building s jobs (keys ++ [entry])
      { b with
        state := b.state.upsertIdem entry.key entry.jobId entry.expiresAt
        idemAdded := b.idemAdded + 1 } := by
  obtain ⟨shape, memory, eq⟩ := building.inv.shape.upsertIdem entry.key entry.jobId entry.expiresAt
  have inv := building.inv.upsertIdem entry.key entry.jobId entry.expiresAt
  have unlisted : b.state.idemOrder.filter (·.entry.key.bytes ≠ entry.key) = b.state.idemOrder := by
    rw [List.filter_eq_self]
    intro n mem
    have listed : n.entry.key.bytes ∈ keys.map IdemImage.key := by
      rw [← building.idem]
      exact List.mem_map.2 ⟨State.idemImage n.entry, List.mem_map_of_mem mem, rfl⟩
    exact decide_eq_true fun same => new (same ▸ listed)
  rw [unlisted] at eq
  refine ⟨inv, ?_, ?_, building.haveMeta, building.names, ?_, ?_, ?_, ?_, ?_, building.jobsAdded, ?_⟩
  · show (b.state.upsertIdem _ _ _).replaying = true
    rw [eq]
    exact building.replaying
  · show (b.state.upsertIdem _ _ _).Unready
    rw [eq]
    exact building.unready
  · show (b.state.upsertIdem _ _ _).totalsOf = _
    rw [eq]
    exact building.totals
  · show (b.state.upsertIdem _ _ _).nextJobId = _
    rw [eq]
    exact building.nextJobId
  · show (b.state.upsertIdem _ _ _).nextToken = _
    rw [eq]
    exact building.nextToken
  · show ∀ id, (b.state.upsertIdem _ _ _).ledger.jobs id = _
    rw [eq]
    exact building.jobs
  · show (b.state.upsertIdem _ _ _).idemImages = _
    rw [eq, ← building.idem]
    show (b.state.idemOrder ++ [_]).map _ = _
    rw [List.map_append]
    rfl
  · show b.idemAdded + 1 = _
    rw [building.idemAdded, List.length_append]
    rfl

theorem Building.checkedEntry (building : Building s jobs keys b)
    (new : entry.key ∉ keys.map IdemImage.key) :
    (∀ b', b.checkedEntry entry = .ok b' → Building s jobs (keys ++ [entry]) b') ∧
      (entry.key ≠ [] → TimeInRange entry.expiresAt → ∃ b', b.checkedEntry entry = .ok b') := by
  have missing : ¬ (b.state.findIdem entry.key).isSome = true := by
    have absent := State.ledger_idem building.inv.shape entry.key
    rw [building.idem] at absent
    have none_here : keys.find? (fun i => decide (i.key = entry.key)) = none := by
      rw [List.find?_eq_none]
      intro i mem same
      exact new (List.mem_map.2 ⟨i, mem, of_decide_eq_true same⟩)
    rw [none_here] at absent
    have absent' : b.state.findIdem entry.key = none := Option.map_eq_none_iff.1 absent
    rw [absent']
    simp
  have next := building.upsertIdem new
  unfold StateBuilder.checkedEntry
  constructor
  · intro b' built
    split at built
    · cases built
    split at built
    · cases built
    · cases built
      exact next
  · intro named inRange
    have nonempty : ¬ entry.key.isEmpty = true := by simpa using named
    have time : ¬ (!timeInRange entry.expiresAt) = true := by
      rw [timeInRange_iff.2 inRange]
      simp
    exact ⟨_, by rw [if_neg nonempty, if_neg time, if_neg missing]⟩

theorem Building.idem_of (building : Building s jobs [] b) (depicts : Depicts s image)
    (inv : s.StateInv State.nobody) :
    (∀ b', b.checkedIdem image.idem = .ok b' → Building s jobs image.idem b') ∧
      ((∀ entry ∈ image.idem, entry.key ≠ [] ∧ TimeInRange entry.expiresAt) →
        ∃ b', b.checkedIdem image.idem = .ok b') := by
  have nodup := (depicts.idem.map IdemImage.key).nodup_iff.2 (State.idemImages_keys_nodup inv.shape)
  refine foldlM_spec (P := Building s jobs) _ (fun taken entry rest b split building => ?_) building
  obtain ⟨sound, complete⟩ := building.checkedEntry (fresh_of_nodup nodup split)
  exact ⟨sound, fun ⟨named, time⟩ => complete named time⟩

end Keys

/-! ## The end -/

/-- A state that stands for another one on disk: it is in replay mode, in step, with
the same ledger. -/
structure Restored (s s' : State) : Prop where
  inv : s'.StateInv State.nobody
  replaying : s'.replaying = true
  unready : s'.Unready
  ledger : s'.ledger = s.ledger

theorem Shape_reorder {t : State} {order : List IdemNode} (shape : t.Shape)
    (perm : order.Perm t.idemOrder) : State.Shape { t with idemOrder := order } where
  __ := shape
  memory := by
    have same : (order.map fun n => t.platform.idemBytes n.entry).sum = t.idemMemory :=
      (perm.map _).sum_eq
    show t.memoryBytes = _ + (order.map fun n => t.platform.idemBytes n.entry).sum
    rw [same]
    exact shape.memory
  idem :=
    { fresh := fun n mem => shape.idem.fresh n (perm.mem_iff.1 mem)
      nodup := (perm.map _).nodup_iff.2 shape.idem.nodup
      indexed := fun n mem => shape.idem.indexed n (perm.mem_iff.1 mem)
      listed := by
        intro key node indexed
        obtain ⟨n, mem, rest⟩ := shape.idem.listed key node indexed
        exact ⟨n, perm.mem_iff.2 mem, rest⟩ }

/-- Two lists of the same keys find the same entries. -/
theorem find_key_perm {xs ys : List IdemImage} (perm : xs.Perm ys)
    (nodup : (xs.map IdemImage.key).Nodup) (key : Bytes) :
    xs.find? (fun i => decide (i.key = key)) = ys.find? fun i => decide (i.key = key) := by
  apply List.find?_eq_find?_of_perm perm
  intro a at_a b at_b
  obtain ⟨mem_a, key_a⟩ := at_a
  obtain ⟨mem_b, key_b⟩ := at_b
  refine List.inj_on_of_nodup_map nodup mem_a mem_b ?_
  exact (of_decide_eq_true key_a).trans (of_decide_eq_true key_b).symm

theorem Building.finish (building : Building s image.jobs image.idem b) (depicts : Depicts s image)
    (inv : s.StateInv State.nobody) : ∃ s', b.finish = .ok s' ∧ Restored s s' := by
  set order := b.state.idemOrder.insertionSort fun x y => x.entry.expiresAt ≤ y.entry.expiresAt
    with order_eq
  have perm : order.Perm b.state.idemOrder := List.perm_insertionSort _ _
  have shape := Shape_reorder building.inv.shape perm
  refine ⟨{ b.state with idemOrder := order }, ?_, ?_⟩
  · unfold StateBuilder.finish
    rw [building.haveMeta]
    rfl
  have keys : State.idemImages { b.state with idemOrder := order } |>.Perm s.idemImages := by
    refine List.Perm.trans ?_ depicts.idem
    rw [← building.idem]
    exact perm.map _
  refine ⟨?_, building.replaying, building.unready, ?_⟩
  · exact building.inv.congr shape rfl rfl rfl rfl rfl (Nat.le_refl _) (Nat.le_refl _)
  · have idem : ∀ key, (State.ledger { b.state with idemOrder := order }).idem key = s.ledger.idem key := by
      intro key
      rw [State.ledger_idem shape, State.ledger_idem inv.shape]
      have nodup := State.idemImages_keys_nodup shape
      rw [find_key_perm keys nodup]
    have jobs_eq : ∀ id, b.state.ledger.jobs id = s.ledger.jobs id := by
      intro id
      rw [building.jobs id]
      split
      · rfl
      · rename_i absent
        cases found : s.findJob id with
        | none => exact (State.ledger_missing found).symm
        | some job =>
          have known := State.mem_keys.2 (Option.isSome_of_eq_some found)
          exact absurd (depicts.ids.mem_iff.2 known) absent
    exact Ledger.ext (funext jobs_eq) building.totals building.nextJobId building.nextToken
      (funext idem)

/-! ## The whole image -/

/-- The whole image, as its pieces are checked. -/
def checkedImage (b : StateBuilder) (image : StateImage) : Result StateBuilder := do
  let b ← b.checkedMeta image
  let b ← b.checkedJobs image.jobs
  b.checkedIdem image.idem

theorem checkedImage_ok :
    b.checkedImage image = .ok b' ↔ ∃ named, b.checkedMeta image = .ok named ∧
      ∃ next, named.checkedJobs image.jobs = .ok next ∧ next.checkedIdem image.idem = .ok b' := by
  constructor
  · intro checked
    obtain ⟨named, named_ok, checked⟩ := Result.bind_ok checked
    obtain ⟨next, jobs_ok, keys_ok⟩ := Result.bind_ok checked
    exact ⟨named, named_ok, next, jobs_ok, keys_ok⟩
  · rintro ⟨named, named_ok, next, jobs_ok, keys_ok⟩
    unfold checkedImage
    rw [named_ok]
    show named.checkedJobs image.jobs >>= _ = _
    rw [jobs_ok]
    exact keys_ok

end StateBuilder

/-- What the builder accepts of a state. -/
structure State.InRange (s : State) : Prop where
  ids : 0 < s.nextJobId
  names : ∀ name ∈ s.queueNames, name ≠ []
  jobs : ∀ id job, s.findJob id = some job → StateBuilder.JobInRange job
  idem : ∀ entry ∈ s.idemImages, entry.key ≠ [] ∧ TimeInRange entry.expiresAt

namespace StateBuilder

variable {s : State} {image : StateImage}

/-- An image of a state builds the state; and it is accepted if the values of the state are
in range. -/
theorem checkedImage_spec (depicts : Depicts s image) (inv : s.StateInv State.nobody)
    (few : s.queueNames.length ≤ 2 ^ 32) (options : StateOptions) (platform : Platform) :
    (∀ b, (new options platform).checkedImage image = .ok b → Building s image.jobs image.idem b) ∧
      (s.InRange → ∃ b, (new options platform).checkedImage image = .ok b) := by
  obtain ⟨metaSound, metaComplete⟩ := checkedMeta_spec depicts options platform inv.tokens
  constructor
  · intro b checked
    obtain ⟨named, named_ok, next, jobs_ok, keys_ok⟩ := checkedImage_ok.1 checked
    have jobs := ((metaSound named named_ok).jobs_of depicts inv few).1 next jobs_ok
    exact (jobs.idem_of depicts inv).1 b keys_ok
  · intro inRange
    obtain ⟨named, named_ok⟩ := metaComplete inRange.ids inRange.names
    obtain ⟨sound, complete⟩ := (metaSound named named_ok).jobs_of depicts inv few
    obtain ⟨next, jobs_ok⟩ := complete fun x _ job found => inRange.jobs x.id job found
    obtain ⟨b, keys_ok⟩ := ((sound next jobs_ok).idem_of depicts inv).2 fun entry mem =>
      inRange.idem entry (depicts.idem.mem_iff.1 mem)
    exact ⟨b, checkedImage_ok.2 ⟨named, named_ok, next, jobs_ok, keys_ok⟩⟩

end StateBuilder

end Baton
