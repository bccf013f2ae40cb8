/-
# Server.Gating — no reply before its records are committed

Each connection's replies go through a gate (`Theory.Gate`) whose keys are LSNs
and whose bound is the committed LSN the server has sampled.  The server keeps the
gate in pieces: the waiting bytes, marks with offsets into them that move with
every release, and one queue of entries for all connections.  `Holds` says that
the pieces are the gate's; every step of the server keeps it (`gatingStep_inv`).

So what has entered `out` are whole replies, in the order they were queued, all of
them with LSNs that are committed; and nothing waits once everything is committed
(`replies_wait_for_commit`).
-/
import Baton.Server.Replies
import Baton.Theory.Gate
import Baton.Theory.Transition

namespace Baton

open Theory Function

set_option autoImplicit false

/-- A reply, and the LSN of the last record logged before it. -/
structure Reply where
  lsn : Nat
  bytes : Bytes
  deriving DecidableEq, Repr

variable {s : Server} {c c' : Connection} {id : Nat} {gates : Nat → Gate Reply}

def bytesOf (replies : List Reply) : Bytes := replies.flatMap Reply.bytes

@[simp] theorem bytesOf_nil : bytesOf [] = [] := rfl
@[simp] theorem bytesOf_append (rs ss : List Reply) :
    bytesOf (rs ++ ss) = bytesOf rs ++ bytesOf ss := by simp [bytesOf]
@[simp] theorem bytesOf_singleton (r : Reply) : bytesOf [r] = r.bytes := by simp [bytesOf]

/-! ## Marks -/

/-- The marks of the waiting replies, the first of which begins at `start`: one
for each group of replies with the same LSN, at the end of the group. -/
def Marks : Nat → List Mark → List Reply → Prop
  | _, [], waiting => waiting = []
  | start, mark :: marks, waiting =>
    ∃ group rest, waiting = group ++ rest ∧ group ≠ [] ∧ (∀ r ∈ group, r.lsn = mark.lsn) ∧
      mark.end_ = start + (bytesOf group).length ∧ Marks mark.end_ marks rest

namespace Marks

variable {start : Nat} {marks : List Mark} {waiting : List Reply}

theorem nil_iff (holds : Marks start marks waiting) : marks = [] ↔ waiting = [] := by
  cases marks with
  | nil => simpa [Marks] using holds
  | cons mark marks =>
    obtain ⟨group, rest, rfl, some_, -⟩ := holds
    simp [some_]

/-- The last mark, and the replies it is for. -/
theorem concat_iff {mark : Mark} :
    Marks start (marks ++ [mark]) waiting ↔
      ∃ front group, waiting = front ++ group ∧ Marks start marks front ∧ group ≠ [] ∧
        (∀ r ∈ group, r.lsn = mark.lsn) ∧ mark.end_ = start + (bytesOf waiting).length := by
  induction marks generalizing start waiting with
  | nil =>
    constructor
    · rintro ⟨group, rest, rfl, some_, same, ends, last⟩
      obtain rfl : rest = [] := last
      exact ⟨[], group, by simp, rfl, some_, same, by simpa using ends⟩
    · rintro ⟨front, group, rfl, none, some_, same, ends⟩
      obtain rfl : front = [] := none
      exact ⟨group, [], by simp, some_, same, by simpa using ends, rfl⟩
  | cons first marks ih =>
    constructor
    · rintro ⟨group, rest, rfl, some_, same, ends, more⟩
      obtain ⟨front, last, rfl, covers, some', same', ends'⟩ := ih.1 more
      refine ⟨group ++ front, last, by simp, ⟨group, front, rfl, some_, same, ends, covers⟩,
        some', same', ?_⟩
      rw [ends', ends]
      simp only [bytesOf_append, List.length_append]
      omega
    · rintro ⟨front, last, rfl, ⟨group, rest, rfl, some_, same, ends, more⟩, some', same', ends'⟩
      refine ⟨group, rest ++ last, by simp, some_, same, ends, ih.2 ⟨rest, last, rfl, more, some',
        same', ?_⟩⟩
      rw [ends', ends]
      simp only [bytesOf_append, List.length_append]
      omega

/-- The offsets move with a release. -/
theorem rebase {gone : Nat} (holds : Marks (start + gone) marks waiting) :
    Marks start (marks.map fun mark => { mark with end_ := mark.end_ - gone }) waiting := by
  induction marks generalizing start waiting with
  | nil => exact holds
  | cons mark marks ih =>
    obtain ⟨group, rest, rfl, some_, same, ends, more⟩ := holds
    have ends' : mark.end_ - gone = start + (bytesOf group).length := by omega
    refine ⟨group, rest, rfl, some_, same, ends', ih ?_⟩
    rwa [show mark.end_ - gone + gone = mark.end_ by omega]

/-- What the loop over the marks finds. -/
theorem popMarks (holds : Marks start marks waiting) (committedLsn : Nat) :
    (Connection.popMarks committedLsn start marks).1 =
        start + (bytesOf (waiting.takeWhile (·.lsn ≤ committedLsn))).length ∧
      Marks (Connection.popMarks committedLsn start marks).1
        (Connection.popMarks committedLsn start marks).2
        (waiting.dropWhile (·.lsn ≤ committedLsn)) := by
  induction marks generalizing start waiting with
  | nil =>
    obtain rfl : waiting = [] := holds
    exact ⟨rfl, rfl⟩
  | cons mark marks ih =>
    obtain ⟨group, rest, rfl, some_, same, ends, more⟩ := holds
    rw [Connection.popMarks]
    by_cases covered : mark.lsn ≤ committedLsn
    · have all : ∀ r ∈ group, decide (r.lsn ≤ committedLsn) = true := fun r mem => by
        simpa [same r mem] using covered
      obtain ⟨front, back⟩ := ih more
      rw [if_pos covered, List.takeWhile_append_of_pos all, List.dropWhile_append_of_pos all]
      refine ⟨?_, back⟩
      rw [front, ends, bytesOf_append, List.length_append]
      omega
    · obtain ⟨r, group, rfl⟩ := List.exists_cons_of_ne_nil some_
      have first : ¬ r.lsn ≤ committedLsn := by
        rwa [same r List.mem_cons_self]
      rw [if_neg covered]
      simp only [List.cons_append, List.takeWhile_cons, List.dropWhile_cons, first, decide_false]
      exact ⟨rfl, r :: group, rest, rfl, some_, same, ends, more⟩

end Marks

/-! ## One connection -/

/-- A connection that holds the waiting replies of the gate; `entries` is the
server's queue. -/
structure Holds (lastLsn : Nat) (entries : List Gated) (id : Nat) (c : Connection)
    (g : Gate Reply) : Prop where
  bytes : c.gated = bytesOf g.waiting
  marks : Marks 0 c.marks g.waiting
  sorted : g.waiting.Pairwise (·.lsn ≤ ·.lsn)
  bounded : ∀ r ∈ g.waiting, r.lsn ≤ lastLsn
  queued : ∀ r ∈ g.waiting, ∃ e ∈ entries, e.lsn = r.lsn ∧ e.connection = id

/-- Some replies went through, and their bytes entered `out`. -/
def Sends (c c' : Connection) (g g' : Gate Reply) : Prop :=
  ∃ more, g'.passed = g.passed ++ more ∧ c'.out = c.out ++ bytesOf more

namespace Holds

variable {lastLsn committedLsn id : Nat} {entries : List Gated} {c : Connection} {g : Gate Reply}

/-- Holding depends on nothing but the waiting bytes and the marks. -/
theorem congr (holds : Holds lastLsn entries id c g) (gated : c'.gated = c.gated)
    (marks : c'.marks = c.marks) : Holds lastLsn entries id c' g :=
  ⟨gated ▸ holds.bytes, marks ▸ holds.marks, holds.sorted, holds.bounded, holds.queued⟩

theorem release (holds : Holds lastLsn entries id c g) (committedLsn : Nat) :
    Holds lastLsn entries id (c.release committedLsn).1 (g.release Reply.lsn committedLsn) ∧
      Sends c (c.release committedLsn).1 g (g.release Reply.lsn committedLsn) := by
  obtain ⟨ends, marks⟩ := holds.marks.popMarks committedLsn
  have split : g.due Reply.lsn committedLsn ++ (g.release Reply.lsn committedLsn).waiting =
      g.waiting := List.takeWhile_append_dropWhile
  have bytes := holds.bytes
  rw [← split, bytesOf_append] at bytes
  have left : (g.release Reply.lsn committedLsn).waiting.Sublist g.waiting :=
    List.dropWhile_sublist _
  have ends : (Connection.popMarks committedLsn 0 c.marks).1 =
      (bytesOf (g.due Reply.lsn committedLsn)).length := ends.trans (Nat.zero_add _)
  have sorted := holds.sorted.sublist left
  have bounded := fun r mem => holds.bounded r (left.subset mem)
  have queued := fun r mem => holds.queued r (left.subset mem)
  simp only [Connection.release]
  split
  · rename_i none
    rw [none] at ends marks
    have empty : bytesOf (g.due Reply.lsn committedLsn) = [] :=
      List.eq_nil_of_length_eq_zero ends.symm
    rw [empty, List.nil_append] at bytes
    refine ⟨⟨bytes, marks, sorted, bounded, queued⟩, _, rfl, ?_⟩
    rw [empty, List.append_nil]
  · rw [← Nat.zero_add (Connection.popMarks committedLsn 0 c.marks).1] at marks
    refine ⟨⟨?_, marks.rebase, sorted, bounded, queued⟩, _, rfl, ?_⟩
    · simp only [bytes]
      exact List.drop_left' ends.symm
    · simp only [bytes]
      rw [List.take_left' ends.symm]

/-- A reply that has to wait is put behind the others. -/
theorem wait {bytes : Bytes} {entries' : List Gated} {marks : List Mark}
    (holds : Holds lastLsn entries id c g) (kept : ∀ e ∈ entries, e ∈ entries')
    (marked : Marks 0 marks (g.waiting ++ [⟨lastLsn, bytes⟩]))
    (queued : ∃ e ∈ entries', e.lsn = lastLsn ∧ e.connection = id) :
    Holds lastLsn entries' id { c with gated := c.gated ++ bytes, marks }
      ⟨g.passed, g.waiting ++ [⟨lastLsn, bytes⟩]⟩ where
  bytes := by simp [holds.bytes]
  marks := marked
  sorted := by
    refine List.pairwise_append.2 ⟨holds.sorted, List.pairwise_singleton _ _, ?_⟩
    intro r mem new is
    rw [List.mem_singleton.1 is]
    exact holds.bounded r mem
  bounded := by
    intro r mem
    rcases List.mem_append.1 mem with old | new
    · exact holds.bounded r old
    · rw [List.mem_singleton.1 new]
  queued := by
    intro r mem
    rcases List.mem_append.1 mem with old | new
    · obtain ⟨e, mem, is⟩ := holds.queued r old
      exact ⟨e, kept e mem, is⟩
    · rw [List.mem_singleton.1 new]
      exact queued

theorem queueReply (holds : Holds lastLsn entries id c g) (committedLsn : Nat) (bytes : Bytes) :
    Holds lastLsn
        (if (c.queueReply lastLsn committedLsn bytes).2 then entries ++ [⟨lastLsn, id⟩] else entries)
        id (c.queueReply lastLsn committedLsn bytes).1
        (g.enqueue Reply.lsn committedLsn ⟨lastLsn, bytes⟩) ∧
      Sends c (c.queueReply lastLsn committedLsn bytes).1 g
        (g.enqueue Reply.lsn committedLsn ⟨lastLsn, bytes⟩) := by
  have size : (c.gated ++ bytes).length =
      0 + (bytesOf (g.waiting ++ [⟨lastLsn, bytes⟩])).length := by simp [holds.bytes]
  have new : ∃ e ∈ entries ++ [⟨lastLsn, id⟩], e.lsn = lastLsn ∧ e.connection = id :=
    ⟨⟨lastLsn, id⟩, by simp, rfl, rfl⟩
  -- a mark of its own
  have push : Marks 0 (c.marks ++ [⟨lastLsn, (c.gated ++ bytes).length⟩])
      (g.waiting ++ [⟨lastLsn, bytes⟩]) :=
    Marks.concat_iff.2 ⟨g.waiting, [⟨lastLsn, bytes⟩], rfl, holds.marks, by simp, by simp, size⟩
  have kept : ∀ e ∈ entries, e ∈ entries ++ [⟨lastLsn, id⟩] := fun e mem =>
    List.mem_append_left _ mem
  unfold Connection.queueReply
  by_cases fast : c.marks = [] ∧ lastLsn ≤ committedLsn
  · have none := holds.marks.nil_iff.1 fast.1
    have passes : g.enqueue Reply.lsn committedLsn ⟨lastLsn, bytes⟩ =
        ⟨g.passed ++ [⟨lastLsn, bytes⟩], []⟩ := if_pos ⟨none, fast.2⟩
    rw [passes, if_pos fast]
    refine ⟨⟨?_, ?_, by simp, by simp, by simp⟩, [⟨lastLsn, bytes⟩], rfl, by simp⟩
    · simp [holds.bytes, none]
    · simp [fast.1, Marks]
  · have waits : ¬ (g.waiting = [] ∧ lastLsn ≤ committedLsn) := by
      rwa [← holds.marks.nil_iff]
    have enqueued : g.enqueue Reply.lsn committedLsn ⟨lastLsn, bytes⟩ =
        ⟨g.passed, g.waiting ++ [⟨lastLsn, bytes⟩]⟩ := if_neg waits
    rw [enqueued, if_neg fast]
    cases last : c.marks.getLast? with
    | none => exact ⟨holds.wait kept push new, [], by simp, by simp⟩
    | some mark =>
      simp only
      split
      · rename_i same
        obtain ⟨front, split⟩ := List.getLast?_eq_some_iff.1 last
        have marks := holds.marks
        rw [split] at marks
        obtain ⟨before, group, all, covers, some_, lsn, -⟩ := Marks.concat_iff.1 marks
        obtain ⟨r, rest, rfl⟩ := List.exists_cons_of_ne_nil some_
        refine ⟨holds.wait (fun e mem => mem) ?_ ?_, [], by simp, by simp⟩
        · rw [split, List.dropLast_concat]
          refine Marks.concat_iff.2 ⟨before, r :: rest ++ [⟨lastLsn, bytes⟩], ?_, covers, by simp,
            ?_, size⟩
          · rw [all, List.append_assoc]
          · intro r' mem
            rcases List.mem_append.1 mem with old | new
            · exact lsn r' old
            · rw [List.mem_singleton.1 new]
              exact same.symm
        · obtain ⟨e, mem, is, at_⟩ := holds.queued r (by simp [all])
          exact ⟨e, mem, by rw [is, lsn r List.mem_cons_self, same], at_⟩
      · exact ⟨holds.wait kept push new, [], by simp, by simp⟩

end Holds

/-! ## The server -/

namespace Server

variable {s : Server} {id other : Nat} {c : Connection}

theorem find_setConnection_self : (s.setConnection id c).find id = some c :=
  AList.lookup_insert _

theorem find_setConnection_ne (ne : other ≠ id) :
    (s.setConnection id c).find other = s.find other :=
  AList.lookup_insert_ne ne

theorem find_closeConnection_self : (s.closeConnection id).find id = none :=
  AList.lookup_erase _ _

theorem find_closeConnection_ne (ne : other ≠ id) :
    (s.closeConnection id).find other = s.find other :=
  AList.lookup_erase_ne ne

theorem find_markDirty_self : (s.markDirty id c).find id = some { c with dirty := true } := by
  unfold markDirty
  split
  · rename_i dirty
    rw [find_setConnection_self]
    cases c
    obtain rfl := dirty
    rfl
  · exact find_setConnection_self

theorem find_markDirty_ne (ne : other ≠ id) : (s.markDirty id c).find other = s.find other := by
  unfold markDirty
  split <;> exact find_setConnection_ne ne

@[simp] theorem markDirty_lastLsn : (s.markDirty id c).lastLsn = s.lastLsn := by
  unfold markDirty; split <;> rfl
@[simp] theorem markDirty_committedLsn : (s.markDirty id c).committedLsn = s.committedLsn := by
  unfold markDirty; split <;> rfl
@[simp] theorem markDirty_gated : (s.markDirty id c).gated = s.gated := by
  unfold markDirty; split <;> rfl
@[simp] theorem markDirty_nextConnectionId :
    (s.markDirty id c).nextConnectionId = s.nextConnectionId := by
  unfold markDirty; split <;> rfl

end Server

/-- The connections of the server hold their gates. -/
structure GatingInv (s : Server) (gates : Nat → Gate Reply) : Prop where
  holds : ∀ id c, s.find id = some c → Holds s.lastLsn s.gated id c (gates id)
  sorted : s.gated.Pairwise (·.lsn ≤ ·.lsn)
  bounded : ∀ e ∈ s.gated, e.lsn ≤ s.lastLsn
  within : ∀ id, (gates id).Within Reply.lsn s.committedLsn
  fresh : ∀ id, s.nextConnectionId ≤ id → s.find id = none ∧ gates id = {}

/-- From `s` to `t`, some replies went through. -/
structure Moves (s t : Server) (gates gates' : Nat → Gate Reply) : Prop where
  lastLsn : t.lastLsn = s.lastLsn
  committedLsn : t.committedLsn = s.committedLsn
  all : ∀ id, (gates' id).all = (gates id).all
  opened : ∀ id c, s.find id = some c →
    ∃ c', t.find id = some c' ∧ Sends c c' (gates id) (gates' id)
  closed : ∀ id, s.find id = none → t.find id = none ∧ gates' id = gates id

variable {t : Server} {results : List IoResult}

theorem Moves.of_find (gates : Nat → Gate Reply) (lastLsn : t.lastLsn = s.lastLsn)
    (committedLsn : t.committedLsn = s.committedLsn) (find : ∀ id, t.find id = s.find id) :
    Moves s t gates gates :=
  ⟨lastLsn, committedLsn, fun _ => rfl,
    fun id c found => ⟨c, (find id).trans found, [], by simp, by simp⟩,
    fun id none => ⟨(find id).trans none, rfl⟩⟩

theorem Moves.trans {t u : Server} {gates' gates'' : Nat → Gate Reply}
    (first : Moves s t gates gates') (second : Moves t u gates' gates'') :
    Moves s u gates gates'' where
  lastLsn := second.lastLsn.trans first.lastLsn
  committedLsn := second.committedLsn.trans first.committedLsn
  all := fun id => (second.all id).trans (first.all id)
  opened := by
    intro id c found
    obtain ⟨c', found', more, passed, out⟩ := first.opened id c found
    obtain ⟨c'', found'', more', passed', out'⟩ := second.opened id c' found'
    refine ⟨c'', found'', more ++ more', ?_, ?_⟩
    · rw [passed', passed, List.append_assoc]
    · rw [out', out, bytesOf_append, List.append_assoc]
  closed := by
    intro id none
    obtain ⟨none', same⟩ := first.closed id none
    obtain ⟨none'', same'⟩ := second.closed id none'
    exact ⟨none'', same'.trans same⟩

namespace Server

variable {s : Server} {id : Nat} {c : Connection}

/-- `releaseEntry`, seen from outside. -/
theorem releaseEntry_eq (found : s.find id = some c) :
    ∃ c', (s.releaseEntry id).find id = some c' ∧
      c'.gated = (c.release s.committedLsn).1.gated ∧
      c'.marks = (c.release s.committedLsn).1.marks ∧
      c'.out = (c.release s.committedLsn).1.out ∧
      (∀ other ≠ id, (s.releaseEntry id).find other = s.find other) ∧
      (s.releaseEntry id).lastLsn = s.lastLsn ∧
      (s.releaseEntry id).committedLsn = s.committedLsn ∧
      (s.releaseEntry id).nextConnectionId = s.nextConnectionId := by
  simp only [releaseEntry, found]
  rcases c.release s.committedLsn with ⟨c', _ | _⟩
  · exact ⟨c', find_setConnection_self, rfl, rfl, rfl, fun other ne => find_setConnection_ne ne,
      rfl, rfl, rfl⟩
  · exact ⟨_, find_markDirty_self, rfl, rfl, rfl, fun other ne => find_markDirty_ne ne, by simp,
      by simp, by simp⟩

end Server

/-- One connection and its gate change. -/
theorem GatingInv.change {g : Gate Reply} (inv : GatingInv s gates) (found : s.find id = some c)
    (found' : t.find id = some c') (others : ∀ other ≠ id, t.find other = s.find other)
    (lastLsn : t.lastLsn = s.lastLsn) (committedLsn : t.committedLsn = s.committedLsn)
    (next : t.nextConnectionId = s.nextConnectionId)
    (entries : ∀ e ∈ s.gated, e.connection ≠ id → e ∈ t.gated)
    (sorted : t.gated.Pairwise (·.lsn ≤ ·.lsn)) (bounded : ∀ e ∈ t.gated, e.lsn ≤ s.lastLsn)
    (holds : Holds s.lastLsn t.gated id c' g) (within : g.Within Reply.lsn s.committedLsn) :
    GatingInv t (update gates id g) where
  holds := by
    intro other d has
    by_cases same : other = id
    · subst same
      rw [found', Option.some.injEq] at has
      rw [update_self, ← has, lastLsn]
      exact holds
    · rw [others other same] at has
      obtain ⟨bytes, marks, sorted, bounded, queued⟩ := inv.holds other d has
      rw [update_of_ne same, lastLsn]
      refine ⟨bytes, marks, sorted, bounded, fun r mem => ?_⟩
      obtain ⟨e, mem, lsn, at_⟩ := queued r mem
      exact ⟨e, entries e mem (at_ ▸ same), lsn, at_⟩
  sorted := sorted
  bounded := lastLsn ▸ bounded
  within := by
    intro other
    rw [committedLsn]
    by_cases same : other = id
    · subst same
      rwa [update_self]
    · rw [update_of_ne same]
      exact inv.within other
  fresh := by
    intro other new
    rw [next] at new
    obtain ⟨none, empty⟩ := inv.fresh other new
    have ne : other ≠ id := by
      rintro rfl
      rw [none] at found
      cases found
    exact ⟨(others other ne).trans none, (update_of_ne ne _ _).trans empty⟩

/-- One entry of the queue. -/
theorem GatingInv.releaseEntry {entry : Gated} {entries : List Gated}
    (inv : GatingInv { s with gated := entry :: entries } gates)
    (covered : entry.lsn ≤ s.committedLsn) :
    ∃ gates', GatingInv { s.releaseEntry entry.connection with gated := entries } gates' ∧
      Moves s (s.releaseEntry entry.connection) gates gates' := by
  have sorted := (List.pairwise_cons.1 inv.sorted).2
  have bounded := fun e mem => inv.bounded e (List.mem_cons_of_mem _ mem)
  have tail {e : Gated} (mem : e ∈ entry :: entries) (ne : e ≠ entry) : e ∈ entries :=
    (List.mem_cons.1 mem).resolve_left ne
  cases found : s.find entry.connection with
  | none =>
    have same : s.releaseEntry entry.connection = s := by simp only [Server.releaseEntry, found]
    rw [same]
    refine ⟨gates, ⟨?_, sorted, bounded, inv.within, inv.fresh⟩, Moves.of_find gates rfl rfl fun _ => rfl⟩
    intro id c found'
    obtain ⟨bytes, marks, sorted, bounded, queued⟩ := inv.holds id c found'
    refine ⟨bytes, marks, sorted, bounded, fun r mem => ?_⟩
    obtain ⟨e, mem, lsn, at_⟩ := queued r mem
    refine ⟨e, tail mem ?_, lsn, at_⟩
    rintro rfl
    rw [at_, show s.find id = some c from found'] at found
    cases found
  | some c =>
    obtain ⟨c', found', gated, marks, out, others, lastLsn, committedLsn, next⟩ :=
      Server.releaseEntry_eq found
    have before := inv.holds entry.connection c found
    obtain ⟨holds, more, passed, sent⟩ := before.release s.committedLsn
    -- what still waits is beyond the bound, so its entry is not the one taken
    have later : ∀ r ∈ ((gates entry.connection).release Reply.lsn s.committedLsn).waiting,
        s.committedLsn < r.lsn := Gate.lt_of_mem_waiting before.sorted
    have queued : ∀ r ∈ ((gates entry.connection).release Reply.lsn s.committedLsn).waiting,
        ∃ e ∈ entries, e.lsn = r.lsn ∧ e.connection = entry.connection := by
      intro r mem
      obtain ⟨e, mem', lsn, at_⟩ := holds.queued r mem
      refine ⟨e, tail mem' ?_, lsn, at_⟩
      rintro rfl
      have := later r mem
      omega
    refine ⟨_, inv.change found found' others lastLsn committedLsn next
      (fun e mem ne => tail mem fun same => ne (same ▸ rfl)) sorted bounded
      ⟨gated ▸ holds.bytes, marks ▸ holds.marks, holds.sorted, holds.bounded, queued⟩
      ((inv.within entry.connection).release le_rfl), lastLsn, committedLsn, ?_, ?_, ?_⟩
    · intro id
      by_cases same : id = entry.connection
      · rw [same, update_self, Gate.release_all]
      · rw [update_of_ne same]
    · intro id d found''
      by_cases same : id = entry.connection
      · subst same
        rw [found, Option.some.injEq] at found''
        subst found''
        rw [update_self]
        exact ⟨c', found', more, passed, out.trans sent⟩
      · rw [update_of_ne same]
        exact ⟨d, (others id same).trans found'', [], by simp, by simp⟩
    · intro id none
      have ne : id ≠ entry.connection := by
        rintro rfl
        rw [none] at found
        cases found
      exact ⟨(others id ne).trans none, update_of_ne ne _ _⟩

/-- The loop over the queue: afterwards nothing waits that is covered. -/
theorem GatingInv.releaseGated {entries : List Gated}
    (inv : GatingInv { s with gated := entries } gates) :
    ∃ gates', GatingInv (Server.releaseGated entries s) gates' ∧
      Moves s (Server.releaseGated entries s) gates gates' ∧
      ∀ e ∈ (Server.releaseGated entries s).gated, s.committedLsn < e.lsn := by
  induction entries generalizing s gates with
  | nil => exact ⟨gates, inv, Moves.of_find gates rfl rfl fun _ => rfl, by simp [Server.releaseGated]⟩
  | cons entry entries ih =>
    rw [Server.releaseGated]
    by_cases covered : entry.lsn ≤ s.committedLsn
    · rw [if_pos covered]
      obtain ⟨gates', inv', moves⟩ := inv.releaseEntry covered
      obtain ⟨gates'', inv'', moves', beyond⟩ := ih inv'
      rw [moves.committedLsn] at beyond
      exact ⟨gates'', inv'', moves.trans moves', beyond⟩
    · rw [if_neg covered]
      refine ⟨gates, inv, Moves.of_find gates rfl rfl fun _ => rfl, fun e mem => ?_⟩
      rcases List.mem_cons.1 mem with rfl | later
      · omega
      · have := (List.pairwise_cons.1 inv.sorted).1 e later
        omega

/-- Connections may be closed and written to; what waits stays as it is. -/
structure KeepsWaiting (s t : Server) : Prop where
  lastLsn : t.lastLsn = s.lastLsn
  committedLsn : t.committedLsn = s.committedLsn
  gated : t.gated = s.gated
  next : t.nextConnectionId = s.nextConnectionId
  found : ∀ id c', t.find id = some c' →
    ∃ c, s.find id = some c ∧ c'.gated = c.gated ∧ c'.marks = c.marks

namespace KeepsWaiting

theorem trans {t u : Server} (first : KeepsWaiting s t) (second : KeepsWaiting t u) :
    KeepsWaiting s u where
  lastLsn := second.lastLsn.trans first.lastLsn
  committedLsn := second.committedLsn.trans first.committedLsn
  gated := second.gated.trans first.gated
  next := second.next.trans first.next
  found := by
    intro id c'' found''
    obtain ⟨c', found', gated', marks'⟩ := second.found id c'' found''
    obtain ⟨c, found, gated, marks⟩ := first.found id c' found'
    exact ⟨c, found, gated'.trans gated, marks'.trans marks⟩

theorem closeConnection (s : Server) (id : Nat) : KeepsWaiting s (s.closeConnection id) where
  lastLsn := rfl
  committedLsn := rfl
  gated := rfl
  next := rfl
  found := by
    intro other c found
    by_cases same : other = id
    · rw [same, Server.find_closeConnection_self] at found
      cases found
    · rw [Server.find_closeConnection_ne same] at found
      exact ⟨c, found, rfl, rfl⟩

theorem setConnection (found : s.find id = some c) (gated : c'.gated = c.gated)
    (marks : c'.marks = c.marks) : KeepsWaiting s (s.setConnection id c') where
  lastLsn := rfl
  committedLsn := rfl
  gated := rfl
  next := rfl
  found := by
    intro other d found'
    by_cases same : other = id
    · subst same
      rw [Server.find_setConnection_self, Option.some.injEq] at found'
      subst found'
      exact ⟨c, found, gated, marks⟩
    · rw [Server.find_setConnection_ne same] at found'
      exact ⟨d, found', rfl, rfl⟩

end KeepsWaiting

theorem Connection.writeOut_waiting
    (written : c.writeOut results = some c') : c'.gated = c.gated ∧ c'.marks = c.marks := by
  induction results generalizing c with
  | nil => exact Option.some.inj written ▸ ⟨rfl, rfl⟩
  | cons result results ih =>
    unfold Connection.writeOut at written
    split at written
    · cases result with
      | kOk bytes =>
        obtain ⟨gated, marks⟩ := ih written
        exact ⟨gated, marks⟩
      | kWouldBlock => exact Option.some.inj written ▸ ⟨rfl, rfl⟩
      | kClosed => cases written
      | kError => cases written
    · exact Option.some.inj written ▸ ⟨rfl, rfl⟩

theorem Connection.flush_waiting (flushed : c.flush results = some c') :
    c'.gated = c.gated ∧ c'.marks = c.marks := by
  unfold Connection.flush at flushed
  split at flushed
  · cases flushed
  · rename_i d written
    obtain ⟨gated, marks⟩ := Connection.writeOut_waiting written
    rw [← gated, ← marks]
    simp only at flushed
    split at flushed <;> split at flushed
    · cases flushed
    · exact Option.some.inj flushed ▸ ⟨rfl, rfl⟩
    · cases flushed
    · exact Option.some.inj flushed ▸ ⟨rfl, rfl⟩

theorem KeepsWaiting.flush (results : List IoResult) (found : s.find id = some c)
    (gated : c'.gated = c.gated) (marks : c'.marks = c.marks) :
    KeepsWaiting s (s.flush id results c') := by
  unfold Server.flush
  cases flushed : c'.flush results with
  | none => exact .closeConnection s id
  | some d =>
    obtain ⟨gated', marks'⟩ := Connection.flush_waiting flushed
    exact .setConnection found (gated'.trans gated) (marks'.trans marks)

theorem KeepsWaiting.flushDirty (results : Nat → List IoResult) (ids : List Nat) (s : Server) :
    KeepsWaiting s (Server.flushDirty results ids s) := by
  induction ids generalizing s with
  | nil => exact ⟨rfl, rfl, rfl, rfl, fun id c found => ⟨c, found, rfl, rfl⟩⟩
  | cons id ids ih =>
    rw [Server.flushDirty]
    cases found : s.find id with
    | none => exact ih s
    | some c =>
      refine KeepsWaiting.trans ?_ (ih _)
      split
      · exact .closeConnection s id
      · exact .flush (results id) found rfl rfl

theorem KeepsWaiting.releaseDurableReplies (s : Server) (committedLsn : Nat)
    (results : Nat → List IoResult) :
    KeepsWaiting (s.releaseReplies committedLsn) (s.releaseDurableReplies committedLsn results) := by
  have taken : KeepsWaiting (s.releaseReplies committedLsn)
      { s.releaseReplies committedLsn with dirty := [] } :=
    ⟨rfl, rfl, rfl, rfl, fun _ c found => ⟨c, found, rfl, rfl⟩⟩
  exact taken.trans (.flushDirty results _ _)

theorem GatingInv.keepsWaiting (inv : GatingInv s gates) (keeps : KeepsWaiting s t) :
    GatingInv t gates where
  holds := by
    intro id c' found'
    obtain ⟨c, found, gated, marks⟩ := keeps.found id c' found'
    rw [keeps.lastLsn, keeps.gated]
    exact (inv.holds id c found).congr gated marks
  sorted := keeps.gated ▸ inv.sorted
  bounded := by
    rw [keeps.gated, keeps.lastLsn]
    exact inv.bounded
  within := keeps.committedLsn ▸ inv.within
  fresh := by
    intro id new
    rw [keeps.next] at new
    obtain ⟨none, empty⟩ := inv.fresh id new
    refine ⟨?_, empty⟩
    by_contra present
    obtain ⟨c', found'⟩ := Option.ne_none_iff_exists'.1 present
    obtain ⟨c, found, -⟩ := keeps.found id c' found'
    rw [none] at found
    cases found

/-! ## Runs -/

/-- What an observer of a connection has seen: the replies that were queued, and the
bytes that entered `out`. -/
structure Seen where
  replies : List Reply := []
  entered : Bytes := []
  deriving DecidableEq, Repr

structure GatingSystem where
  server : Server
  seen : Nat → Seen := fun _ => {}

/-- The bytes that entered `out` of a connection from one state to the next. -/
def enteredOut (s t : Server) (id : Nat) : Bytes :=
  match s.find id, t.find id with
  | some c, some c' => c'.out.drop c.out.length
  | _, _ => []

inductive GatingStep where
  | accept
  /-- the engine logs records -/
  | append (count : Nat)
  /-- a command, a parked RESERVE or its timeout replies -/
  | reply (id : Nat) (bytes : Bytes)
  /-- QUIT or a protocol error -/
  | quit (id : Nat)
  /-- the socket becomes writable -/
  | write (id : Nat) (results : List IoResult)
  | close (id : Nat)
  /-- the end of a loop iteration; `committedLsn` is what the log has announced -/
  | release (committedLsn : Nat) (results : Nat → List IoResult)

/-- The steps of the server; `none` if a step cannot be taken.  What the log
announces does not decrease. -/
def gatingStep : GatingStep → GatingSystem → Option GatingSystem
  | .accept, ⟨s, seen⟩ => some ⟨s.acceptConnection, seen⟩
  | .append count, ⟨s, seen⟩ => some ⟨{ s with lastLsn := s.lastLsn + count }, seen⟩
  | .reply id bytes, ⟨s, seen⟩ =>
    match s.find id with
    | none => none
    | some _ =>
      let t := s.queueReply id bytes
      let entered := (seen id).entered ++ enteredOut s t id
      some ⟨t, update seen id ⟨(seen id).replies ++ [⟨s.lastLsn, bytes⟩], entered⟩⟩
  | .quit id, ⟨s, seen⟩ =>
    match s.find id with
    | none => none
    | some c => some ⟨s.setConnection id { c with closeAfterFlush := true }, seen⟩
  | .write id results, ⟨s, seen⟩ =>
    match s.find id with
    | none => none
    | some c => some ⟨s.flush id results c, seen⟩
  | .close id, ⟨s, seen⟩ => some ⟨s.closeConnection id, seen⟩
  | .release committedLsn results, ⟨s, seen⟩ =>
    if s.committedLsn ≤ committedLsn then
      let entered id := (seen id).entered ++ enteredOut s (s.releaseReplies committedLsn) id
      some ⟨s.releaseDurableReplies committedLsn results,
        fun id => ⟨(seen id).replies, entered id⟩⟩
    else none

/-- The gates are held, and the observer has seen what went through them. -/
structure SeenInv (sys : GatingSystem) (gates : Nat → Gate Reply) : Prop where
  held : GatingInv sys.server gates
  replies : ∀ id, (sys.seen id).replies = (gates id).all
  entered : ∀ id, (sys.seen id).entered = bytesOf (gates id).passed

theorem enteredOut_eq {more : Bytes} (found : s.find id = some c)
    (found' : t.find id = some c') (out : c'.out = c.out ++ more) : enteredOut s t id = more := by
  simp only [enteredOut, found, found', out, List.drop_left]

/-- The loop over the queue, and what it lets through. -/
theorem SeenInv.releaseReplies {seen : Nat → Seen} (inv : SeenInv ⟨s, seen⟩ gates)
    {committedLsn : Nat} (le : s.committedLsn ≤ committedLsn) :
    ∃ gates', SeenInv ⟨s.releaseReplies committedLsn, fun id =>
        ⟨(seen id).replies, (seen id).entered ++ enteredOut s (s.releaseReplies committedLsn) id⟩⟩
        gates' ∧
      (s.releaseReplies committedLsn).lastLsn = s.lastLsn ∧
      ∀ e ∈ (s.releaseReplies committedLsn).gated, committedLsn < e.lsn := by
  have start : GatingInv { s with committedLsn } gates :=
    ⟨inv.held.holds, inv.held.sorted, inv.held.bounded,
      fun id r mem => (inv.held.within id r mem).trans le, inv.held.fresh⟩
  obtain ⟨gates', held, moves, beyond⟩ :=
    GatingInv.releaseGated (s := { s with committedLsn }) start
  refine ⟨gates', ⟨held, fun id => ?_, fun id => ?_⟩, moves.lastLsn, beyond⟩
  · exact (inv.replies id).trans (moves.all id).symm
  · have entered : (seen id).entered = bytesOf (gates id).passed := inv.entered id
    simp only [entered]
    cases found : s.find id with
    | none =>
      obtain ⟨none, same⟩ := moves.closed id found
      simp [enteredOut, found, same]
    | some c =>
      obtain ⟨c', found', more, passed, out⟩ := moves.opened id c found
      have sent : enteredOut s (s.releaseReplies committedLsn) id = bytesOf more :=
        enteredOut_eq found found' out
      rw [sent, passed, bytesOf_append]

/-- `queueReply`, seen from outside. -/
theorem Server.queueReply_eq (found : s.find id = some c) (bytes : Bytes) :
    ∃ c', (s.queueReply id bytes).find id = some c' ∧
      c'.gated = (c.queueReply s.lastLsn s.committedLsn bytes).1.gated ∧
      c'.marks = (c.queueReply s.lastLsn s.committedLsn bytes).1.marks ∧
      c'.out = (c.queueReply s.lastLsn s.committedLsn bytes).1.out ∧
      (∀ other ≠ id, (s.queueReply id bytes).find other = s.find other) ∧
      (s.queueReply id bytes).lastLsn = s.lastLsn ∧
      (s.queueReply id bytes).committedLsn = s.committedLsn ∧
      (s.queueReply id bytes).nextConnectionId = s.nextConnectionId ∧
      (s.queueReply id bytes).gated =
        if (c.queueReply s.lastLsn s.committedLsn bytes).2 then s.gated ++ [⟨s.lastLsn, id⟩]
        else s.gated := by
  simp only [Server.queueReply, found]
  rcases c.queueReply s.lastLsn s.committedLsn bytes with ⟨c', _ | _⟩ <;>
    exact ⟨_, find_markDirty_self, rfl, rfl, rfl, fun other ne => find_markDirty_ne ne, by simp,
      by simp, by simp, by simp⟩

/-- A reply is queued. -/
theorem SeenInv.reply {seen : Nat → Seen} (inv : SeenInv ⟨s, seen⟩ gates)
    (found : s.find id = some c) (bytes : Bytes) :
    ∃ gates', SeenInv ⟨s.queueReply id bytes, update seen id
      ⟨(seen id).replies ++ [⟨s.lastLsn, bytes⟩],
        (seen id).entered ++ enteredOut s (s.queueReply id bytes) id⟩⟩ gates' := by
  have held : GatingInv s gates := inv.held
  obtain ⟨holds, more, passed, sent⟩ := (held.holds id c found).queueReply s.committedLsn bytes
  obtain ⟨c', found', gated, marks, out, others, lastLsn, committedLsn, next, entries⟩ :=
    Server.queueReply_eq found bytes
  rw [← entries] at holds
  have kept : ∀ e ∈ s.gated, e ∈ (s.queueReply id bytes).gated := by
    intro e mem
    rw [entries]
    split
    · exact List.mem_append_left _ mem
    · exact mem
  have bounded : ∀ e ∈ (s.queueReply id bytes).gated, e.lsn ≤ s.lastLsn := by
    intro e mem
    rw [entries] at mem
    split at mem
    · rcases List.mem_append.1 mem with old | new
      · exact held.bounded e old
      · rw [List.mem_singleton.1 new]
    · exact held.bounded e mem
  have sorted : (s.queueReply id bytes).gated.Pairwise (·.lsn ≤ ·.lsn) := by
    rw [entries]
    split
    · refine List.pairwise_append.2 ⟨held.sorted, List.pairwise_singleton _ _, ?_⟩
      intro e mem new is
      rw [List.mem_singleton.1 is]
      exact held.bounded e mem
    · exact held.sorted
  have within : ((gates id).enqueue Reply.lsn s.committedLsn ⟨s.lastLsn, bytes⟩).Within Reply.lsn
      s.committedLsn := (held.within id).enqueue _
  have replies (id : Nat) : (seen id).replies = (gates id).all := inv.replies id
  have entered (id : Nat) : (seen id).entered = bytesOf (gates id).passed := inv.entered id
  refine ⟨_, held.change found found' others lastLsn committedLsn next (fun e mem _ => kept e mem)
    sorted bounded (holds.congr gated marks) within, fun other => ?_, fun other => ?_⟩
  · by_cases same : other = id
    · subst same
      simp only [update_self, Gate.enqueue_all, replies other]
    · simp only [update_of_ne same, replies other]
  · by_cases same : other = id
    · subst same
      simp only [update_self, entered other]
      rw [enteredOut_eq found found' (out.trans sent), passed, bytesOf_append]
    · simp only [update_of_ne same, entered other]

/-- A new connection. -/
theorem GatingInv.acceptConnection (inv : GatingInv s gates) :
    GatingInv s.acceptConnection gates where
  __ := inv
  holds := by
    intro id c found
    obtain ⟨-, empty⟩ := inv.fresh s.nextConnectionId le_rfl
    by_cases same : id = s.nextConnectionId
    · subst same
      have new : s.acceptConnection.find s.nextConnectionId = some {} :=
        Server.find_setConnection_self
      rw [new, Option.some.injEq] at found
      subst found
      rw [empty]
      exact ⟨rfl, rfl, List.Pairwise.nil, by simp, by simp⟩
    · have old : s.acceptConnection.find id = s.find id := Server.find_setConnection_ne same
      exact inv.holds id c (old.symm.trans found)
  fresh := by
    intro id new
    have later : s.nextConnectionId + 1 ≤ id := new
    obtain ⟨none, empty⟩ := inv.fresh id (by omega)
    have old : s.acceptConnection.find id = s.find id := Server.find_setConnection_ne (by omega)
    exact ⟨old.trans none, empty⟩

/-- The engine logs records. -/
theorem GatingInv.append (inv : GatingInv s gates) (count : Nat) :
    GatingInv { s with lastLsn := s.lastLsn + count } gates where
  __ := inv
  holds := by
    intro id c found
    obtain ⟨bytes, marks, sorted, bounded, queued⟩ := inv.holds id c found
    exact ⟨bytes, marks, sorted, fun r mem => (bounded r mem).trans (Nat.le_add_right _ _), queued⟩
  bounded := fun e mem => (inv.bounded e mem).trans (Nat.le_add_right _ _)

/-- Every step keeps the gates held. -/
theorem gatingStep_inv {sys sys' : GatingSystem} (inv : SeenInv sys gates) (step : GatingStep)
    (taken : gatingStep step sys = some sys') : ∃ gates', SeenInv sys' gates' := by
  obtain ⟨s, seen⟩ := sys
  cases step with
  | accept =>
    obtain rfl := Option.some.inj taken
    exact ⟨gates, inv.held.acceptConnection, inv.replies, inv.entered⟩
  | append count =>
    obtain rfl := Option.some.inj taken
    exact ⟨gates, inv.held.append count, inv.replies, inv.entered⟩
  | reply id bytes =>
    simp only [gatingStep] at taken
    split at taken
    · cases taken
    · rename_i c found
      obtain rfl := Option.some.inj taken
      exact inv.reply found bytes
  | quit id =>
    simp only [gatingStep] at taken
    split at taken
    · cases taken
    · rename_i c found
      obtain rfl := Option.some.inj taken
      exact ⟨gates, inv.held.keepsWaiting (.setConnection found rfl rfl), inv.replies,
        inv.entered⟩
  | write id results =>
    simp only [gatingStep] at taken
    split at taken
    · cases taken
    · rename_i c found
      obtain rfl := Option.some.inj taken
      exact ⟨gates, inv.held.keepsWaiting (.flush results found rfl rfl), inv.replies,
        inv.entered⟩
  | close id =>
    obtain rfl := Option.some.inj taken
    exact ⟨gates, inv.held.keepsWaiting (.closeConnection s id), inv.replies, inv.entered⟩
  | release committedLsn results =>
    simp only [gatingStep] at taken
    split at taken
    · rename_i le
      obtain rfl := Option.some.inj taken
      obtain ⟨gates', inv', -⟩ := inv.releaseReplies le
      exact ⟨gates', inv'.held.keepsWaiting (.releaseDurableReplies s _ results), inv'.replies,
        inv'.entered⟩
    · cases taken

/-- A server that has just started, with the log it recovered. -/
def GatingSystem.started (lastLsn committedLsn : Nat) : GatingSystem :=
  ⟨{ lastLsn, committedLsn }, fun _ => {}⟩

theorem GatingSystem.started_inv (lastLsn committedLsn : Nat) :
    SeenInv (.started lastLsn committedLsn) fun _ => {} where
  held :=
    { holds := by
        intro id c found
        cases found
      sorted := List.Pairwise.nil
      bounded := by
        intro e mem
        cases mem
      within := by
        intro id r mem
        cases mem
      fresh := fun _ _ => ⟨rfl, rfl⟩ }
  replies := fun _ => rfl
  entered := fun _ => rfl

/-- In every state of every run, what has entered `out` of a connection are the
first replies that were queued for it, all of which were produced when no record
was logged that is not committed now.  After a release at which the log had
announced every record, nothing waits. -/
theorem replies_wait_for_commit {lastLsn committedLsn : Nat} {steps : List GatingStep}
    {sys : GatingSystem} (run : runs gatingStep steps (.started lastLsn committedLsn) = some sys) :
    (∀ id, ∃ count, (sys.seen id).entered = bytesOf ((sys.seen id).replies.take count) ∧
      ∀ r ∈ (sys.seen id).replies.take count, r.lsn ≤ sys.server.committedLsn) ∧
    ∀ announced results sys', gatingStep (.release announced results) sys = some sys' →
      sys'.server.lastLsn ≤ announced →
      ∀ id c, sys'.server.find id = some c → c.gated = [] ∧ c.marks = [] := by
  have inv : ∃ gates, SeenInv sys gates :=
    runs_invariant (P := fun sys => ∃ gates, SeenInv sys gates)
      (fun step _ _ taken inv => inv.elim fun _ inv => gatingStep_inv inv step taken) run
      ⟨_, GatingSystem.started_inv lastLsn committedLsn⟩
  obtain ⟨gates, inv⟩ := inv
  constructor
  · intro id
    have passed : (sys.seen id).replies.take (gates id).passed.length = (gates id).passed := by
      rw [inv.replies id, Gate.all, List.take_left]
    exact ⟨(gates id).passed.length, by rw [passed, inv.entered id],
      passed.symm ▸ inv.held.within id⟩
  · intro announced results sys' taken all id c found
    obtain ⟨s, seen⟩ := sys
    simp only [gatingStep] at taken
    split at taken
    · rename_i le
      obtain rfl := Option.some.inj taken
      obtain ⟨gates', inv', -, beyond⟩ := inv.releaseReplies le
      have keeps := KeepsWaiting.releaseDurableReplies s announced results
      have held := inv'.held.keepsWaiting keeps
      have holds := held.holds id c found
      have none : (gates' id).waiting = [] := by
        refine List.eq_nil_iff_forall_not_mem.2 fun r mem => ?_
        obtain ⟨e, mem, -⟩ := holds.queued r mem
        have low := held.bounded e mem
        have high := beyond e (keeps.gated ▸ mem)
        exact absurd (low.trans all) (Nat.not_le.2 high)
      exact ⟨by rw [holds.bytes, none, bytesOf_nil], holds.marks.nil_iff.2 none⟩
    · cases taken

/-- Two replies wait for record 1 and a third for record 2; when record 1 is
committed, the first two go. -/
theorem replies_wait_for_commit_of_two :
    ∃ sys, runs gatingStep [.accept, .append 1, .reply 1 [65], .reply 1 [66], .append 1,
        .reply 1 [67], .release 1 fun _ => []] (.started 0 0) = some sys ∧
      sys.seen 1 = ⟨[⟨1, [65]⟩, ⟨1, [66]⟩, ⟨2, [67]⟩], [65, 66]⟩ ∧
      ∃ count, (sys.seen 1).entered = bytesOf ((sys.seen 1).replies.take count) ∧
        ∀ r ∈ (sys.seen 1).replies.take count, r.lsn ≤ sys.server.committedLsn := by
  have seen : (runs gatingStep [.accept, .append 1, .reply 1 [65], .reply 1 [66], .append 1,
        .reply 1 [67], .release 1 fun _ => []] (.started 0 0)).map (·.seen 1) =
      some ⟨[⟨1, [65]⟩, ⟨1, [66]⟩, ⟨2, [67]⟩], [65, 66]⟩ := by decide +kernel
  obtain ⟨sys, run, seen⟩ := Option.map_eq_some_iff.1 seen
  exact ⟨sys, run, seen, (replies_wait_for_commit run).1 1⟩

end Baton
