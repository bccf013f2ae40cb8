/-
# Theory.Incremental — parsers that are given a stream piece by piece

A parser is given what it has not consumed yet and answers with an item, an error, or
that it needs more.  Its state may change on the way, so that it need not keep everything.

`Incremental` is what such a parser has to satisfy for one call: an item or an error is
not changed by bytes that come later, and where it needs more, going on with what is left
is the same as having been given everything at once.  Then any two ways of cutting a
stream into pieces give the same items and the same end: `feed_flatten`.
-/
import Mathlib.Data.List.Basic

namespace Baton.Theory.Incremental

set_option autoImplicit false

/-- What a call answers; `P` are the states of the parser. -/
inductive Outcome (P R E α : Type) where
  | item (value : R) (rest : List α) (parser : P)
  | more (rest : List α) (parser : P)
  | failed (error : E)

/-- How the calls on a buffer end. -/
inductive Ending (P E α : Type) where
  | waiting (rest : List α) (parser : P)
  | failed (error : E)

section Parser

variable {P R E α : Type} (parse : P → List α → Outcome P R E α) (valid : P → Prop)

/-- The laws, in the states that occur. -/
structure Lawful : Prop where
  item : ∀ {p data value rest p'}, valid p → parse p data = .item value rest p' →
    valid p' ∧ rest.length < data.length ∧ ∀ later, parse p (data ++ later) = .item value (rest ++ later) p'
  failed : ∀ {p data error}, valid p → parse p data = .failed error →
    ∀ later, parse p (data ++ later) = .failed error
  more : ∀ {p data rest p'}, valid p → parse p data = .more rest p' →
    valid p' ∧ ∀ later, parse p (data ++ later) = parse p' (rest ++ later)

/-- Calls as long as there are items, at most `fuel`. -/
def drainLoop : Nat → P → List α → List R × Ending P E α
  | 0, p, data => ([], .waiting data p)
  | fuel + 1, p, data =>
    match parse p data with
    | .item value rest p' => (value :: (drainLoop fuel p' rest).1, (drainLoop fuel p' rest).2)
    | .more rest p' => ([], .waiting rest p')
    | .failed error => ([], .failed error)

/-- Every item takes something, so this is enough. -/
def drain (p : P) (data : List α) : List R × Ending P E α := drainLoop parse (data.length + 1) p data

/-- One more piece of the stream. -/
def feed (read : List R × Ending P E α) (piece : List α) : List R × Ending P E α :=
  match read.2 with
  | .failed _ => read
  | .waiting rest p => (read.1 ++ (drain parse p (rest ++ piece)).1, (drain parse p (rest ++ piece)).2)

variable {parse valid} {p p' : P} {data rest : List α} {value : R} {error : E}

theorem drainLoop_fuel (lawful : Lawful parse valid) :
    ∀ (fuel fuel' : Nat) (p : P) (data : List α), valid p → data.length < fuel → data.length < fuel' →
      drainLoop parse fuel p data = drainLoop parse fuel' p data
  | 0, _, _, _, _, enough, _ => absurd enough (Nat.not_lt_zero _)
  | _ + 1, 0, _, _, _, _, enough => absurd enough (Nat.not_lt_zero _)
  | fuel + 1, fuel' + 1, p, data, ok, enough, enough' => by
    unfold drainLoop
    cases result : parse p data with
    | item value rest p' =>
      obtain ⟨ok', shorter, -⟩ := lawful.item ok result
      have same := drainLoop_fuel lawful fuel fuel' p' rest ok' (by omega) (by omega)
      simp only [same]
    | more rest p' => rfl
    | failed error => rfl

theorem drain_item (lawful : Lawful parse valid) (ok : valid p) (result : parse p data = .item value rest p') :
    drain parse p data = (value :: (drain parse p' rest).1, (drain parse p' rest).2) := by
  obtain ⟨ok', shorter, -⟩ := lawful.item ok result
  have same := drainLoop_fuel lawful data.length (rest.length + 1) p' rest ok' shorter (Nat.lt_succ_self _)
  unfold drain
  rw [drainLoop, result]
  simp only [same]

theorem drain_more (result : parse p data = .more rest p') : drain parse p data = ([], .waiting rest p') := by
  unfold drain
  rw [drainLoop, result]

theorem drain_failed (result : parse p data = .failed error) : drain parse p data = ([], .failed error) := by
  unfold drain
  rw [drainLoop, result]

theorem drain_congr {data' : List α} (lawful : Lawful parse valid) (ok : valid p) (ok' : valid p')
    (same : parse p data = parse p' data') : drain parse p data = drain parse p' data' := by
  cases result : parse p data with
  | item value rest next =>
    rw [drain_item lawful ok result, drain_item lawful ok' (same.symm.trans result)]
  | more rest next => rw [drain_more result, drain_more (same.symm.trans result)]
  | failed error => rw [drain_failed result, drain_failed (same.symm.trans result)]

/-- A stuck buffer stays as it is. -/
theorem Lawful.stuck (lawful : Lawful parse valid) (ok : valid p) (result : parse p data = .more rest p') :
    parse p' rest = .more rest p' := by
  have again := (lawful.more ok result).2 []
  rw [List.append_nil, List.append_nil] at again
  rw [← again, result]

/-- What the calls have read stays read, and more of the stream is read from where they
stopped. -/
theorem drain_append (lawful : Lawful parse valid) (later : List α) :
    ∀ (n : Nat) (p : P) (data : List α), data.length = n → valid p →
      drain parse p (data ++ later) = feed parse (drain parse p data) later ∧
        ∀ rest p', (drain parse p data).2 = .waiting rest p' → valid p' ∧ parse p' rest = .more rest p' := by
  intro n
  induction n using Nat.strongRecOn with
  | _ n ih =>
    intro p data length ok
    cases result : parse p data with
    | item value rest p' =>
      obtain ⟨ok', shorter, same⟩ := lawful.item ok result
      obtain ⟨step, stuck⟩ := ih rest.length (by omega) p' rest rfl ok'
      rw [drain_item lawful ok result, drain_item lawful ok (same later), step]
      refine ⟨?_, stuck⟩
      generalize drain parse p' rest = read
      obtain ⟨items, ending⟩ := read
      cases ending <;> rfl
    | more rest p' =>
      obtain ⟨ok', same⟩ := lawful.more ok result
      rw [drain_more result]
      refine ⟨drain_congr lawful ok ok' (same later), ?_⟩
      rintro _ _ ⟨⟩
      exact ⟨ok', lawful.stuck ok result⟩
    | failed error =>
      rw [drain_failed result]
      exact ⟨drain_failed (lawful.failed ok result later), fun _ _ waiting => nomatch waiting⟩

/-- A parser that has been given everything there is. -/
def Settled (parse : P → List α → Outcome P R E α) (valid : P → Prop) (read : List R × Ending P E α) : Prop :=
  ∀ rest p, read.2 = .waiting rest p → valid p ∧ parse p rest = .more rest p

variable {read : List R × Ending P E α}

theorem feed_settled (lawful : Lawful parse valid)
    (settled : Settled parse valid read) (piece : List α) : Settled parse valid (feed parse read piece) := by
  intro rest p waiting
  unfold feed at waiting
  cases ending : read.2 with
  | failed error =>
    rw [ending] at waiting
    exact absurd (ending.symm.trans waiting) (by rintro ⟨⟩)
  | waiting left q =>
    rw [ending] at waiting
    exact (drain_append lawful [] _ q (left ++ piece) rfl (settled left q ending).1).2 rest p waiting

theorem feed_nil (settled : Settled parse valid read) : feed parse read [] = read := by
  unfold feed
  cases ending : read.2 with
  | failed error => rfl
  | waiting rest p =>
    dsimp only
    rw [List.append_nil, drain_more (settled rest p ending).2, List.append_nil, ← ending]

theorem feed_append (lawful : Lawful parse valid)
    (settled : Settled parse valid read) (first second : List α) :
    feed parse read (first ++ second) = feed parse (feed parse read first) second := by
  obtain ⟨items, ending⟩ := read
  cases ending with
  | failed error => rfl
  | waiting rest p =>
    have step := (drain_append lawful second _ p (rest ++ first) rfl (settled rest p rfl).1).1
    unfold feed
    dsimp only
    rw [← List.append_assoc, step]
    generalize drain parse p (rest ++ first) = read
    obtain ⟨more, ending⟩ := read
    cases ending with
    | failed error => rfl
    | waiting left q =>
      unfold feed
      dsimp only
      rw [List.append_assoc]

/-- Only the stream matters, not how it is cut into pieces. -/
theorem feed_flatten (lawful : Lawful parse valid) (pieces : List (List α)) :
    ∀ {read : List R × Ending P E α}, Settled parse valid read →
      pieces.foldl (feed parse) read = feed parse read pieces.flatten := by
  induction pieces with
  | nil =>
    intro read settled
    exact (feed_nil settled).symm
  | cons piece pieces ih =>
    intro read settled
    rw [List.foldl_cons, ih (feed_settled lawful settled piece), List.flatten_cons, feed_append lawful settled]

end Parser

end Baton.Theory.Incremental
