/-
# State.Serialize — the bytes of a state are those of its ledger

`State::serialize` sorts the jobs by id and the keys by name, so its bytes do not
depend on the order in which a hash map lists its jobs nor on that of the
idempotency list: two states with the same ledger have the same bytes
(`serialize_ledger`).
-/
import Baton.State.ImageLoad

namespace Baton

open Theory

set_option autoImplicit false

/-- Sorting forgets the order, where the order decides between any two elements. -/
theorem insertionSort_perm {α : Type} {r : α → α → Prop} [DecidableRel r]
    (total : ∀ a b, r a b ∨ r b a) (trans : ∀ a b c, r a b → r b c → r a c) {xs ys : List α}
    (antisymm : ∀ a ∈ xs, ∀ b ∈ xs, r a b → r b a → a = b) (perm : xs.Perm ys) :
    xs.insertionSort r = ys.insertionSort r := by
  have : Std.Total r := ⟨total⟩
  have : IsTrans α r := ⟨trans⟩
  have perm_xs := List.perm_insertionSort r xs
  have perm_ys := List.perm_insertionSort r ys
  apply List.Perm.eq_of_pairwise
  · intro a b mem_a mem_b
    have in_xs := perm_xs.mem_iff.1 mem_a
    have in_ys := perm.mem_iff.2 (perm_ys.mem_iff.1 mem_b)
    exact antisymm a in_xs b in_ys
  · exact List.pairwise_insertionSort r xs
  · exact List.pairwise_insertionSort r ys
  · exact perm_xs.trans (perm.trans perm_ys.symm)

namespace State

variable {s s' : State}

/-- The image of a job, from what the ledger has of it. -/
def ledgerImage (names : List Bytes) (id : Nat) (job : LedgerJob) : JobImage where
  id := id
  queue := names.idxOf job.queue % 2 ^ 32
  payload := job.payload
  priority := job.priority
  attempts := job.attempts
  maxAttempts := job.maxAttempts
  backoffBaseMs := job.backoffBaseMs
  backoffCapMs := job.backoffCapMs
  state := job.state
  runAt := job.runAt
  createdAt := job.createdAt
  finishedAt := job.finishedAt
  leaseExpiresAt := job.leaseExpiresAt
  leaseToken := job.leaseToken
  idemKey := job.idemKey
  lastError := job.lastError

theorem jobImage_ledger {id : Nat} {job : Job} (shape : Shape s) (found : s.findJob id = some job) :
    s.jobImage job = ledgerImage s.queueNames id job.ledger := by
  have job_id : job.id = id := shape.jobIds id job found
  unfold jobImage ledgerImage
  rw [job_id]
  rfl

variable {iteration : IterationOrder}

/-- What an image lists is what the ledger has. -/
theorem mem_captured_jobs {image : JobImage} (shape : Shape s) :
    image ∈ (s.captureImage iteration).jobs ↔
      ∃ id job, s.ledger.jobs id = some job ∧ image = ledgerImage s.queueNames id job := by
  show image ∈ (iteration.order s.jobs.keys).filterMap _ ↔ _
  rw [List.mem_filterMap]
  constructor
  · rintro ⟨id, -, listed⟩
    obtain ⟨job, found, rfl⟩ := Option.map_eq_some_iff.1 listed
    refine ⟨id, job.ledger, ?_, jobImage_ledger shape found⟩
    show (s.findJob id).map Job.ledger = _
    rw [found]
    rfl
  · rintro ⟨id, job, in_ledger, rfl⟩
    obtain ⟨job, found, rfl⟩ := Option.map_eq_some_iff.1 in_ledger
    refine ⟨id, ?_, ?_⟩
    · exact (iteration.perm _).mem_iff.2 (mem_keys.2 (Option.isSome_of_eq_some found))
    · rw [found, ← jobImage_ledger shape found]
      rfl

/-- The ids an image lists. -/
theorem captured_ids (shape : Shape s) :
    (s.captureImage iteration).jobs.map JobImage.id = iteration.order s.jobs.keys := by
  show ((iteration.order s.jobs.keys).filterMap _).map JobImage.id = _
  rw [List.map_filterMap]
  refine (List.filterMap_congr ?_).trans List.filterMap_some
  intro id mem
  obtain ⟨job, found⟩ := Option.isSome_iff_exists.1 (mem_keys.1 ((iteration.perm _).mem_iff.1 mem))
  rw [found]
  exact congrArg some (shape.jobIds id job found)

theorem depicts_captured {iteration : IterationOrder} (shape : Shape s) :
    StateBuilder.Depicts s (s.captureImage iteration) where
  nextJobId := rfl
  nextToken := rfl
  queues := rfl
  ids := captured_ids shape ▸ iteration.perm _
  jobs := by
    intro image mem
    obtain ⟨id, -, listed⟩ := List.mem_filterMap.1 mem
    obtain ⟨job, found, rfl⟩ := Option.map_eq_some_iff.1 listed
    have job_id : (s.jobImage job).id = id := shape.jobIds id job found
    exact ⟨job, job_id ▸ found, rfl⟩
  idem := List.Perm.refl _

theorem captured_ids_nodup {iteration : IterationOrder} (shape : Shape s) :
    ((s.captureImage iteration).jobs.map JobImage.id).Nodup :=
  (depicts_captured shape).ids.nodup_iff.2 s.jobs.nodupKeys

theorem mem_idemImages {entry : IdemImage} (shape : Shape s) :
    entry ∈ s.idemImages ↔ s.ledger.idem entry.key = some (entry.jobId, entry.expiresAt) := by
  rw [ledger_idem shape]
  constructor
  · intro mem
    have found : s.idemImages.find? (fun i => decide (i.key = entry.key)) = some entry := by
      rw [List.find?_eq_some_iff_append]
      obtain ⟨before, after, parts⟩ := List.append_of_mem mem
      refine ⟨decide_eq_true rfl, before, after, parts, ?_⟩
      intro other in_before
      -- an earlier entry of the key would be a second one
      have nodup := idemImages_keys_nodup shape
      rw [parts, List.map_append, List.nodup_append] at nodup
      have apart := nodup.2.2 other.key (List.mem_map_of_mem in_before) entry.key
        (List.mem_map_of_mem List.mem_cons_self)
      simpa using apart
    rw [found]
    rfl
  · intro found
    obtain ⟨other, at_key, same⟩ := Option.map_eq_some_iff.1 found
    have key : other.key = entry.key := by
      have matches_key := List.find?_some at_key
      exact of_decide_eq_true matches_key
    obtain ⟨jobId, expiresAt⟩ := Prod.mk.inj same
    have : other = entry := by
      cases other
      cases key
      cases jobId
      cases expiresAt
      rfl
    exact this ▸ List.mem_of_find?_eq_some at_key

/-- The names of the queues, from the ledger. -/
theorem queueNames_ledger (same : s.ledger.totals = s'.ledger.totals) :
    s.queueNames = s'.queueNames := by
  have same : s.totalsOf = s'.totalsOf := same
  have perm : s.queues.keys.Perm s'.queues.keys := by
    apply (List.perm_ext_iff_of_nodup s.queues.nodupKeys s'.queues.nodupKeys).2
    intro name
    show name ∈ s.queues.keys ↔ name ∈ s'.queues.keys
    rw [← (queueNames_perm s).mem_iff, ← (queueNames_perm s').mem_iff, mem_queueNames,
      mem_queueNames, same]
  apply insertionSort_perm (r := fun a b : Bytes => a ≤ b) _ _ _ perm
  · intro a b
    exact Std.le_total
  · intro a b c
    exact Std.le_trans
  · intro a _ b _
    exact Std.le_antisymm

theorem canonical_jobs {iteration' : IterationOrder} (shape : Shape s) (shape' : Shape s')
    (jobs : s.ledger.jobs = s'.ledger.jobs) (names : s.queueNames = s'.queueNames) :
    (canonical (s.captureImage iteration)).jobs = (canonical (s'.captureImage iteration')).jobs := by
  have nodup := @captured_ids_nodup s iteration shape
  apply insertionSort_perm (r := fun a b : JobImage => a.id ≤ b.id)
  · intro a b
    exact Nat.le_total _ _
  · intro a b c
    exact Nat.le_trans
  · intro a mem_a b mem_b below above
    exact List.inj_on_of_nodup_map nodup mem_a mem_b (Nat.le_antisymm below above)
  · rw [List.perm_ext_iff_of_nodup (List.Nodup.of_map _ nodup)
      (List.Nodup.of_map _ (captured_ids_nodup shape'))]
    intro image
    rw [mem_captured_jobs shape, mem_captured_jobs shape', jobs, names]

theorem canonical_idem {iteration' : IterationOrder} (shape : Shape s) (shape' : Shape s')
    (idem : s.ledger.idem = s'.ledger.idem) :
    (canonical (s.captureImage iteration)).idem = (canonical (s'.captureImage iteration')).idem := by
  have nodup := idemImages_keys_nodup shape
  apply insertionSort_perm (r := fun a b : IdemImage => a.key ≤ b.key)
  · intro a b
    exact Std.le_total
  · intro a b c
    exact Std.le_trans
  · intro a mem_a b mem_b below above
    exact List.inj_on_of_nodup_map nodup mem_a mem_b (Std.le_antisymm below above)
  · show s.idemImages.Perm s'.idemImages
    rw [List.perm_ext_iff_of_nodup (List.Nodup.of_map _ nodup)
      (List.Nodup.of_map _ (idemImages_keys_nodup shape'))]
    intro entry
    rw [mem_idemImages shape, mem_idemImages shape', idem]

/-- What is serialized is the ledger. -/
theorem serialize_ledger {iteration' : IterationOrder} (shape : Shape s) (shape' : Shape s')
    (same : s.ledger = s'.ledger) : s.serialize iteration = s'.serialize iteration' := by
  have names := queueNames_ledger (congrArg Ledger.totals same)
  have jobs : (canonical (s.captureImage iteration)).jobs =
      (canonical (s'.captureImage iteration')).jobs :=
    canonical_jobs shape shape' (congrArg Ledger.jobs same) names
  have idem : (canonical (s.captureImage iteration)).idem =
      (canonical (s'.captureImage iteration')).idem :=
    canonical_idem shape shape' (congrArg Ledger.idem same)
  have images : s.queueImage = s'.queueImage := by
    funext name
    have totals : s.totalsOf name = s'.totalsOf name := congrFun (congrArg Ledger.totals same) name
    exact congrArg (fun t : Option QueueTotals => QueueImage.mk name (t.getD {})) totals
  have metas : encodeImageMeta (canonical (s.captureImage iteration)) =
      encodeImageMeta (canonical (s'.captureImage iteration')) := by
    have ids : s.nextJobId = s'.nextJobId := congrArg Ledger.nextJobId same
    have tokens : s.nextToken = s'.nextToken := congrArg Ledger.nextToken same
    unfold encodeImageMeta canonical captureImage
    rw [ids, tokens, names, images]
  unfold serialize serializeImage
  rw [metas, jobs, idem]

end State

end Baton
