/-
# Sdk.LedgerRuns — any number of ledgers on one file

The file lock makes a run a sequence of sections, each by one of any number of `Ledger`
objects, in an interpreter with limits of its own.  A process may die anywhere: outside of
the lock, or when a section has written any number of the bytes of its record.

`sound_call` and `sound_crash` are the induction step: the file is the frames of the
records `rs` and a torn tail, every object has read a beginning of `rs`, and no key is done
twice.  What a run promises follows: `exactly_once` for `put_if_absent`, and `fenced` for
the tokens.

Both need a condition on the steps.  `lost_entry` is an entry that was acknowledged and
then cut off by another process, because its record is longer than `_MAX_RECORD`;
`zombie_recorded` is a run that was superseded while its effect ran, and is recorded.  The
condition of `fenced` is on the order of the calls (`InOrder`): no run of a higher token
begins between the two sections of a run that is recorded.
-/
import Baton.Sdk.JsonRoundTrip
import Mathlib.Data.List.Induction
import Mathlib.Data.List.Nodup
import Mathlib.Logic.Relation

namespace Baton.Sdk

open Theory Function
open List (append_nil filterMap_append forall_mem_append forall_mem_singleton mem_append
  mem_append_left mem_append_right mem_filterMap mem_singleton nodup_append take_length)

set_option autoImplicit false

/-! ## Systems -/

/-- A section of a call, or of `once`: the ledger, the interpreter and the call. -/
structure Turn where
  ledger : Nat
  host : Host
  call : Call

/-- A section that is over. -/
structure Event where
  ledger : Nat
  call : Call
  result : Except Raised Answer

/-- The key that a call of `put_if_absent` added. -/
def Event.added (event : Event) : Option Str :=
  match event.call, event.result with
  | .putIfAbsent key _ _, .ok (.bool true) => some key
  | _, _ => none

/-- The text of the value that a call of `once` returned. -/
def Event.answered (event : Event) : Option Bytes :=
  match event.result with
  | .ok (.value value) => some (dumps value)
  | _ => none

/-- A first section of `once` that let its effect run, or that died with the claim written. -/
structure Begin where
  ledger : Nat
  key : Str
  token : Int
  died : Bool := false
  deriving DecidableEq

/-- The run that a section of the call begins. -/
def Call.begins (i : Nat) (died : Bool) : Call → List Begin
  | .onceBegin key token => [⟨i, key, token, died⟩]
  | _ => []

/-- The key of the runs below. -/
def job : Str := [0x6a]

structure System where
  file : Bytes := []
  ledgers : Nat → Ledger
  /-- the runs of `once` whose effect has begun -/
  running : List (Nat × Str × Int) := []
  /-- the newest first -/
  begins : List Begin := []
  log : List Event := []

namespace System

def start (path : String) : System := { ledgers := fun _ => { path } }

def runningAfter (s : System) (i : Nat) : Call → Except Raised Answer → List (Nat × Str × Int)
  | .onceBegin key token, .ok .run => (i, key, token) :: s.running
  | .onceEnd key token _, _ => s.running.erase (i, key, token)
  | _, _ => s.running

def beginsAfter (s : System) (i : Nat) : Call → Except Raised Answer → List Begin
  | .onceBegin key token, .ok .run => ⟨i, key, token, false⟩ :: s.begins
  | _, _ => s.begins

/-- What the section returns, and what it leaves. -/
def perform (s : System) (t : Turn) : Section Answer :=
  locked t.host (s.ledgers t.ledger) s.file t.call.body

def called (s : System) (t : Turn) : System :=
  let done := s.perform t
  { file := done.file
    ledgers := update s.ledgers t.ledger done.ledger
    running := s.runningAfter t.ledger t.call done.result
    begins := s.beginsAfter t.ledger t.call done.result
    log := s.log ++ [⟨t.ledger, t.call, done.result⟩] }

/-- The process of the ledger dies, and another one takes its place. -/
def restarted (s : System) (i : Nat) : System :=
  { s with
    ledgers := update s.ledgers i { path := (s.ledgers i).path }
    running := s.running.filter fun run => run.1 ≠ i }

/-- What a section leaves that dies after so many bytes of its record. -/
def fileAfterCrash (s : System) (t : Turn) (written : Nat) : Bytes :=
  match (s.ledgers t.ledger).catchUp t.host s.file with
  | (some _, _, file) => file
  | (none, l, file) =>
    match t.call.body l with
    | .answer _ _ => file
    | .append record _ =>
      match appended t.host.dumps record with
      | .error _ => file
      | .ok bytes => file ++ bytes.take written

def beginsAfterCrash (s : System) (t : Turn) (written : Nat) : List Begin :=
  match t.call with
  | .onceBegin key token =>
    if (Rec.claim key token).frame.length ≤ written then ⟨t.ledger, key, token, true⟩ :: s.begins
    else s.begins
  | _ => s.begins

def crashed (s : System) (t : Turn) (written : Nat) : System :=
  { s.restarted t.ledger with
    file := s.fileAfterCrash t written
    begins := s.beginsAfterCrash t written }

/-- The section appends the record. -/
def Writes (s : System) (t : Turn) (r : Rec) : Prop :=
  ∃ l file answer, (s.ledgers t.ledger).catchUp t.host s.file = (none, l, file) ∧
    t.call.body l = .append r.members answer ∧ appended t.host.dumps r.members = .ok r.frame

/-- The effect of a run has begun when its second section comes. -/
def Begun (s : System) (t : Turn) : Prop :=
  match t.call with
  | .onceEnd key token _ => (t.ledger, key, token) ∈ s.running
  | _ => True

/-- A step, where every section meets a condition. -/
inductive Step (meets : System → Turn → Prop) (s : System) : System → Prop where
  | call (t : Turn) (begun : s.Begun t) (met : meets s t) : Step meets s (s.called t)
  | crash (t : Turn) (written : Nat) (begun : s.Begun t) (met : meets s t) : Step meets s (s.crashed t written)
  | restart (i : Nat) : Step meets s (s.restarted i)

theorem Step.weaken {meets meets' : System → Turn → Prop} {s s' : System}
    (weaker : ∀ s t, meets s t → meets' s t) (step : Step meets s s') : Step meets' s s' := by
  cases step with
  | call t begun met => exact .call t begun (weaker s t met)
  | crash t written begun met => exact .crash t written begun (weaker s t met)
  | restart i => exact .restart i

abbrev Runs (meets : System → Turn → Prop) : System → System → Prop :=
  Relation.ReflTransGen (Step meets)

end System

/-! ## What a section does -/

/-- A call whose record is read back: its strings and its value are, it is not too long, and
the limits allow it. -/
def Call.Formed (limits : Limits) : Call → Prop
  | .putIfAbsent key value token | .onceEnd key token value =>
    StrFormed key ∧ value.WellFormed ∧ (Rec.done key token value).payload.length ≤ kMaxRecord ∧
      limits.Allow (.object (doneRecord key token value))
  | .onceBegin key token =>
    StrFormed key ∧ (Rec.claim key token).payload.length ≤ kMaxRecord ∧
      limits.Allow (.object (claimRecord key token))
  | .get _ => True

/-- A section that appends, with the record and the answer. -/
inductive Appends (l : Ledger) : Call → Rec → Answer → Prop where
  | put {key : Str} {value : Json} {token : Int} (absent : l.find key = none) :
      Appends l (.putIfAbsent key value token) (.done key token value) (.bool true)
  | claim {key : Str} {token : Int} (absent : l.find key = none) (newer : l.claims key < token) :
      Appends l (.onceBegin key token) (.claim key token) .run
  | record {key : Str} {token : Int} {value : Json} (absent : l.find key = none) :
      Appends l (.onceEnd key token value) (.done key token value) (.value value)

/-- A section that does not: the maps stay, it adds nothing, the file is not damaged, and an
effect runs only with a token that is not superseded. -/
structure Quiet (l : Ledger) (c : Call) (result : Except Raised Answer) (l' : Ledger) : Prop where
  same : l'.Same l
  offset : l'.offset = l.offset
  nothing : result ≠ .ok (.bool true)
  calm : ∀ message, result ≠ .error (.ledgerCorrupt message)
  newest : ∀ key token, c = .onceBegin key token → result = .ok .run → l.claims key ≤ token

theorem body_cases (l : Ledger) (c : Call) :
    (∃ r answer, Appends l c r answer ∧ c.body l = .append r.members answer) ∨
      ∃ result l', Quiet l c result l' ∧ c.body l = .answer result l' := by
  have quiet : ∀ {result : Except Raised Answer}, result ≠ .ok (.bool true) →
      (∀ message, result ≠ .error (.ledgerCorrupt message)) → result ≠ .ok .run → Quiet l c result l :=
    fun nothing calm stays => ⟨⟨rfl, rfl⟩, rfl, nothing, calm, fun _ _ _ runs => absurd runs stays⟩
  cases c with
  | putIfAbsent key value token =>
    cases found : l.find key with
    | none =>
      refine Or.inl ⟨.done key token value, .bool true, .put found, ?_⟩
      show Ledger.putIfAbsent key value token l = _
      unfold Ledger.putIfAbsent
      rw [found]
      rfl
    | some entry =>
      refine Or.inr ⟨.ok (.bool false), l, quiet (by rintro ⟨⟩) (by rintro _ ⟨⟩) (by rintro ⟨⟩), ?_⟩
      show Ledger.putIfAbsent key value token l = _
      unfold Ledger.putIfAbsent
      rw [found]
      rfl
  | get key => exact Or.inr ⟨_, l, quiet (by rintro ⟨⟩) (by rintro _ ⟨⟩) (by rintro ⟨⟩), rfl⟩
  | onceBegin key token =>
    show (∃ r answer, _ ∧ Ledger.onceBegin key token l = _) ∨
      ∃ result l', _ ∧ Ledger.onceBegin key token l = _
    unfold Ledger.onceBegin
    cases found : l.find key with
    | some entry => exact Or.inr ⟨_, l, quiet (by rintro ⟨⟩) (by rintro _ ⟨⟩) (by rintro ⟨⟩), rfl⟩
    | none =>
      by_cases older : token < l.claims key
      · rw [if_pos older]
        exact Or.inr ⟨_, l, quiet (by rintro ⟨⟩) (by rintro _ ⟨⟩) (by rintro ⟨⟩), rfl⟩
      rw [if_neg older]
      by_cases newer : l.claims key < token
      · rw [if_pos newer]
        exact Or.inl ⟨.claim key token, .run, .claim found newer, rfl⟩
      · rw [if_neg newer]
        refine Or.inr ⟨_, l, ⟨⟨rfl, rfl⟩, rfl, by rintro ⟨⟩, by rintro _ ⟨⟩, ?_⟩, rfl⟩
        rintro _ _ ⟨⟩ -
        exact Int.not_lt.1 older
  | onceEnd key token value =>
    show (∃ r answer, _ ∧ Ledger.onceEnd key token value l = _) ∨
      ∃ result l', _ ∧ Ledger.onceEnd key token value l = _
    unfold Ledger.onceEnd
    cases found : l.find key with
    | none => exact Or.inl ⟨.done key token value, .value value, .record found, rfl⟩
    | some entry =>
      refine Or.inr ⟨.ok (.value entry.value), { l with duplicateRuns := l.duplicateRuns + 1 }, ?_, rfl⟩
      exact ⟨⟨rfl, rfl⟩, rfl, by rintro ⟨⟩, by rintro _ ⟨⟩, by rintro _ _ ⟨⟩⟩

theorem appended_cases (limits : Limits) (r : Rec) :
    appended limits r.members = .ok r.frame ∧ r.payload.length < 2 ^ 32 ∨
      ∃ raised, appended limits r.members = .error raised ∧ ∀ message, raised ≠ .ledgerCorrupt message := by
  unfold appended
  cases limits.raised (.object r.members) with
  | some error => exact Or.inr ⟨_, rfl, by rintro _ ⟨⟩⟩
  | none =>
    by_cases large : 2 ^ 32 ≤ r.payload.length
    · exact Or.inr ⟨_, if_pos large, by rintro _ ⟨⟩⟩
    · exact Or.inl ⟨if_neg large, Nat.not_le.1 large⟩

/-! ## What the maps hold -/

/-- The entry a record makes for a key. -/
def Rec.entryFor (key : Str) : Rec → Option Entry
  | .done name token value => if name = key then some ⟨name, token, value⟩ else none
  | .claim _ _ => none

/-- The key a record makes done. -/
def Rec.doneKey : Rec → Option Str
  | .done key _ _ => some key
  | .claim _ _ => none

namespace Ledger

theorem find_setDefault (l : Ledger) (entry : Entry) (key : Str) :
    (l.setDefault entry).find key =
      (l.find key).or (if entry.key = key then some entry else none) := by
  unfold setDefault
  by_cases known : (l.find entry.key).isSome = true
  · rw [if_pos known]
    by_cases here : entry.key = key
    · rw [here] at known
      obtain ⟨old, found⟩ := Option.isSome_iff_exists.1 known
      rw [found]
      rfl
    · rw [if_neg here, Option.or_none]
  · rw [if_neg known]
    show (l.done ++ [entry]).find? _ = _
    rw [List.find?_append]
    congr 1
    rw [List.find?_singleton]
    simp only [beq_iff_eq]

/-- The first record for a key counts. -/
theorem find_reading (rs : List Rec) (key : Str) :
    (reading rs).find key = rs.findSome? (Rec.entryFor key) := by
  induction rs using List.reverseRecOn with
  | nil => rfl
  | append_singleton rs r ih =>
    rw [reading_append, List.findSome?_append, ← ih]
    cases r with
    | claim name token =>
      show (reading rs).find key = _
      simp [Rec.entryFor]
    | done name token value =>
      show ((reading rs).setDefault ⟨name, token, value⟩).find key = _
      rw [find_setDefault]
      simp [Rec.entryFor]

theorem absent_iff (rs : List Rec) (key : Str) :
    (reading rs).find key = none ↔ key ∉ rs.filterMap Rec.doneKey := by
  rw [find_reading, List.findSome?_eq_none_iff, mem_filterMap]
  constructor
  · rintro none_ ⟨r, mem, done⟩
    have nothing := none_ r mem
    cases r with
    | claim name token => cases done
    | done name token value =>
      cases done
      simp [Rec.entryFor] at nothing
  · intro fresh r mem
    cases r with
    | claim name token => rfl
    | done name token value =>
      show (if name = key then _ else none) = none
      rw [if_neg]
      rintro rfl
      exact fresh ⟨_, mem, rfl⟩

variable {rs : List Rec} {key : Str}

theorem claims_le_applyRec (l : Ledger) (r : Rec) (key : Str) : l.claims key ≤ (l.applyRec r).claims key := by
  have raised : ∀ (l : Ledger) (name : Str) (token : Int), l.claims key ≤ (l.raiseClaim name token).claims key := by
    intro l name token
    show l.claims key ≤ update l.claims name (max (l.claims name) token) key
    by_cases here : key = name
    · rw [here, update_self]
      exact Int.le_max_left _ _
    · rw [update_of_ne here]
  cases r with
  | claim name token => exact raised l name token
  | done name token value =>
    refine Int.le_trans (Int.le_of_eq ?_) (raised (l.setDefault ⟨name, token, value⟩) name token)
    unfold setDefault
    split <;> rfl

theorem claims_nonneg (rs : List Rec) (key : Str) : 0 ≤ (reading rs).claims key := by
  induction rs using List.reverseRecOn with
  | nil => exact Int.le_refl _
  | append_singleton rs r ih =>
    rw [reading_append]
    exact Int.le_trans ih (claims_le_applyRec _ r key)

/-- The maps know every claim. -/
theorem claim_le_reading {t : Int} (mem : .claim key t ∈ rs) : t ≤ (reading rs).claims key := by
  induction rs using List.reverseRecOn with
  | nil => cases mem
  | append_singleton rs r ih =>
    rw [reading_append]
    rcases mem_append.1 mem with old | new
    · exact Int.le_trans (ih old) (claims_le_applyRec _ r key)
    · cases mem_singleton.1 new
      show t ≤ update (reading rs).claims key (max ((reading rs).claims key) t) key
      rw [update_self]
      exact Int.le_max_right _ _

end Ledger

/-! ## The invariant -/

namespace System

open Ledger

/-- What the calls have told: the keys that were added are recorded, none of them twice. -/
structure Told (rs : List Rec) (log : List Event) : Prop where
  recorded : ∀ event ∈ log, ∀ key value token, event.call = .putIfAbsent key value token →
    event.result = .ok (.bool true) → .done key token value ∈ rs
  added : (log.filterMap Event.added).Nodup
  calm : ∀ event ∈ log, ∀ message, event.result ≠ .error (.ledgerCorrupt message)

structure Sound (limits : Limits) (rs : List Rec) (s : System) : Prop where
  file : ∃ tail, Torn tail ∧ s.file = frames rs ++ tail
  readable : ∀ r ∈ rs, r.Readable limits
  ledgers : ∀ i, ∃ n, (s.ledgers i).UpTo rs n
  once : (rs.filterMap Rec.doneKey).Nodup
  told : Told rs s.log

/-- No reader is below the limits, and every record that is appended can be read back. -/
def ReadableWrites (limits : Limits) (s : System) (t : Turn) : Prop :=
  limits.Le t.host.loads ∧ ∀ r, s.Writes t r → r.Readable limits

/-- A section that appends the record to these bytes. -/
structure Wrote (s : System) (t : Turn) (l : Ledger) (file : Bytes) (r : Rec) (answer : Answer) : Prop where
  appends : Appends l t.call r answer
  writes : s.Writes t r
  small : r.payload.length < 2 ^ 32
  called : s.perform t =
    ⟨.ok answer, Ledger.applyRec { l with offset := (file ++ r.frame).length } r, file ++ r.frame⟩
  crashed : ∀ written, s.fileAfterCrash t written = file ++ r.frame.take written

/-- One that leaves these bytes. -/
structure Left (s : System) (t : Turn) (l : Ledger) (file : Bytes) (result : Except Raised Answer) (l' : Ledger) :
    Prop where
  quiet : Quiet l t.call result l'
  called : s.perform t = ⟨result, l', file⟩
  crashed : ∀ written, s.fileAfterCrash t written = file

section Sound

variable {limits : Limits} {rs : List Rec} {s s' : System} {t : Turn}

theorem section_cases {l : Ledger} {file : Bytes}
    (caught : (s.ledgers t.ledger).catchUp t.host s.file = (none, l, file)) :
    (∃ r answer, Wrote s t l file r answer) ∨ ∃ result l', Left s t l file result l' := by
  rcases body_cases l t.call with ⟨r, answer, appends, body⟩ | ⟨result, l', quiet, body⟩
  · rcases appended_cases t.host.dumps r with ⟨bytes, small⟩ | ⟨raised, refused, calm⟩
    · refine Or.inl ⟨r, answer, appends, ⟨l, file, answer, caught, body, bytes⟩, small, ?_, ?_⟩
      · simp only [perform, locked, caught, body, appendRecord, bytes, apply_members]
      · intro written
        simp only [fileAfterCrash, caught, body, bytes]
    · have quiet : Quiet l t.call (.error raised) l :=
        ⟨⟨rfl, rfl⟩, rfl, by rintro ⟨⟩, fun message same => calm message (Except.error.inj same), by rintro _ _ - ⟨⟩⟩
      refine Or.inr ⟨.error raised, l, quiet, ?_, ?_⟩
      · simp only [perform, locked, caught, body, appendRecord, refused]
      · intro written
        simp only [fileAfterCrash, caught, body, refused]
  · refine Or.inr ⟨result, l', quiet, ?_, ?_⟩
    · simp only [perform, locked, caught, body]
    · intro written
      simp only [fileAfterCrash, caught, body]

theorem Writes.appends {r : Rec} (writes : s.Writes t r) : ∃ l answer, Appends l t.call r answer := by
  obtain ⟨l, file, answer, -, body, -⟩ := writes
  rcases body_cases l t.call with ⟨r', answer', appends, body'⟩ | ⟨result, l', quiet, body'⟩
  · rw [body'] at body
    injection body with members
    rw [← Rec.members_injective members]
    exact ⟨l, answer', appends⟩
  · rw [body'] at body
    cases body

/-- The condition is one on the arguments of the calls. -/
theorem readableWrites_of_formed (allows : limits.Le t.host.loads) (formed : t.call.Formed limits) (s : System) :
    s.ReadableWrites limits t := by
  refine ⟨allows, fun r writes => ?_⟩
  obtain ⟨l, answer, appends⟩ := writes.appends
  generalize t.call = c at formed appends
  cases appends with
  | put absent => exact Rec.readable_done formed.1 formed.2.1 formed.2.2.1 formed.2.2.2
  | claim absent newer => exact Rec.readable_claim formed.1 formed.2.1 formed.2.2
  | record absent => exact Rec.readable_done formed.1 formed.2.1 formed.2.2.1 formed.2.2.2

theorem sound_start (limits : Limits) (path : String) : Sound limits [] (start path) where
  file := ⟨[], torn_nil, rfl⟩
  readable := List.forall_mem_nil _
  ledgers := fun _ => ⟨0, upTo_new [] path⟩
  once := List.nodup_nil
  told := ⟨List.forall_mem_nil _, List.nodup_nil, List.forall_mem_nil _⟩

/-- Every section finds the complete records, and leaves them. -/
theorem Sound.catchUp {host : Host} (sound : Sound limits rs s) (allows : limits.Le host.loads) (i : Nat) :
    ∃ l, (s.ledgers i).catchUp host s.file = (none, l, frames rs) ∧ Current rs l := by
  obtain ⟨tail, torn, whole⟩ := sound.file
  obtain ⟨n, upTo⟩ := sound.ledgers i
  obtain ⟨l, caught, current, -⟩ := catchUp_spec sound.readable allows torn upTo
  rw [← whole] at caught
  exact ⟨l, caught, current⟩

variable {l : Ledger} {r : Rec} {answer : Answer} {more : List Rec}

theorem not_done {key : Str} (current : Current rs l) (absent : l.find key = none) :
    key ∉ rs.filterMap Rec.doneKey := by
  rw [current.same_reading.find] at absent
  exact (absent_iff rs key).1 absent

theorem once_append {c : Call} (once : (rs.filterMap Rec.doneKey).Nodup) (current : Current rs l)
    (appends : Appends l c r answer) : ((rs ++ [r]).filterMap Rec.doneKey).Nodup := by
  rw [filterMap_append]
  cases appends with
  | claim absent newer =>
    show (_ ++ []).Nodup
    rw [append_nil]
    exact once
  | put absent | record absent =>
    refine nodup_append.2 ⟨once, List.nodup_singleton _, ?_⟩
    rintro key mem _ here rfl
    cases mem_singleton.1 here
    exact not_done current absent mem

/-- The other objects have read as much as before. -/
theorem upTo_update {i : Nat} {l : Ledger} {more : List Rec} (ledgers : ∀ j, ∃ n, (s.ledgers j).UpTo rs n)
    (here : ∃ n, l.UpTo (rs ++ more) n) : ∀ j, ∃ n, (update s.ledgers i l j).UpTo (rs ++ more) n := by
  intro j
  by_cases same : j = i
  · rw [same, update_self]
    exact here
  · rw [update_of_ne same]
    obtain ⟨n, upTo⟩ := ledgers j
    exact ⟨n, upTo.append more⟩

/-- The object that has appended has read everything. -/
theorem current_append (current : Current rs l) (r : Rec) :
    Current (rs ++ [r]) (Ledger.applyRec { l with offset := (frames rs ++ r.frame).length } r) := by
  have kept := applyRec_kept { l with offset := (frames rs ++ r.frame).length } r
  refine ⟨Nat.le_refl _, ?_, ?_⟩
  · rw [take_length, frames_append, kept.1]
    simp [frames]
  · rw [take_length, reading_append]
    have same : Ledger.Same { l with offset := (frames rs ++ r.frame).length } (reading rs) :=
      current.same_reading
    exact same.applyRec r

theorem frames_snoc (rs : List Rec) (r : Rec) : frames (rs ++ [r]) = frames rs ++ r.frame := by
  simp [frames]

theorem readable_append (readable : ∀ r ∈ rs, r.Readable limits) (last : r.Readable limits) :
    ∀ r' ∈ rs ++ [r], r'.Readable limits := forall_mem_append.2 ⟨readable, forall_mem_singleton.2 last⟩

section Told

variable {log : List Event}

theorem Told.append (told : Told rs log) (more : List Rec) : Told (rs ++ more) log where
  __ := told
  recorded := fun event mem key value token call result =>
    mem_append_left _ (told.recorded event mem key value token call result)

/-- A section that adds nothing. -/
theorem Told.quiet {i : Nat} {c : Call} {result : Except Raised Answer} (told : Told rs log)
    (nothing : result ≠ .ok (.bool true)) (calm : ∀ message, result ≠ .error (.ledgerCorrupt message)) :
    Told rs (log ++ [⟨i, c, result⟩]) := by
  have quiet : (Event.mk i c result).added = none := by
    unfold Event.added
    split
    · exact absurd (by assumption) nothing
    · rfl
  refine ⟨forall_mem_append.2 ⟨told.recorded, forall_mem_singleton.2 ?_⟩, ?_,
    forall_mem_append.2 ⟨told.calm, forall_mem_singleton.2 calm⟩⟩
  · intro key value token call added
    exact absurd added nothing
  · rw [filterMap_append, List.filterMap_cons_none quiet, List.filterMap_nil, append_nil]
    exact told.added

variable {key : Str}

/-- A key that was added is done. -/
theorem Told.done_of_added (told : Told rs log) (mem : key ∈ log.filterMap Event.added) :
    key ∈ rs.filterMap Rec.doneKey := by
  obtain ⟨event, listed, added⟩ := mem_filterMap.1 mem
  unfold Event.added at added
  split at added
  · rename_i value token call result
    cases added
    exact mem_filterMap.2 ⟨_, told.recorded event listed _ _ _ call result, rfl⟩
  · cases added

/-- A call that added its key. -/
theorem Told.put {i : Nat} {value : Json} {token : Int} (told : Told rs log)
    (fresh : key ∉ rs.filterMap Rec.doneKey) :
    Told (rs ++ [.done key token value]) (log ++ [⟨i, .putIfAbsent key value token, .ok (.bool true)⟩]) := by
  refine ⟨forall_mem_append.2 ⟨(told.append _).recorded, forall_mem_singleton.2 ?_⟩, ?_,
    forall_mem_append.2 ⟨told.calm, forall_mem_singleton.2 (by rintro _ ⟨⟩)⟩⟩
  · rintro _ _ _ ⟨⟩ -
    exact mem_append_right _ (List.mem_singleton_self _)
  · rw [filterMap_append]
    refine nodup_append.2 ⟨told.added, List.nodup_singleton _, ?_⟩
    rintro name mem _ here rfl
    cases mem_singleton.1 here
    exact fresh (told.done_of_added mem)

theorem Told.wrote {l : Ledger} {c : Call} {r : Rec} {answer : Answer} (told : Told rs log) (current : Current rs l)
    (appends : Appends l c r answer) (i : Nat) : Told (rs ++ [r]) (log ++ [⟨i, c, .ok answer⟩]) := by
  cases appends with
  | put absent => exact told.put (not_done current absent)
  | claim absent newer => exact (told.append _).quiet (by rintro ⟨⟩) (by rintro _ ⟨⟩)
  | record absent => exact (told.append _).quiet (by rintro ⟨⟩) (by rintro _ ⟨⟩)

end Told

theorem sound_wrote (sound : Sound limits rs s) (current : Current rs l)
    (wrote : Wrote s t l (frames rs) r answer) (last : r.Readable limits) :
    Sound limits (rs ++ [r]) (s.called t) := by
  unfold called
  rw [wrote.called]
  refine ⟨⟨[], torn_nil, ?_⟩, readable_append sound.readable last, ?_,
    once_append sound.once current wrote.appends, sound.told.wrote current wrote.appends _⟩
  · rw [append_nil, frames_snoc]
  · exact upTo_update sound.ledgers ⟨_, current_append current r⟩

theorem sound_left {l' : Ledger} {result : Except Raised Answer} (sound : Sound limits rs s)
    (current : Current rs l) (left : Left s t l (frames rs) result l') : Sound limits rs (s.called t) := by
  have here : Current rs l' := by
    refine ⟨Nat.le_refl _, left.quiet.offset.trans current.offset, ?_⟩
    exact ⟨left.quiet.same.1.trans current.same.1, left.quiet.same.2.trans current.same.2⟩
  have ledgers := @upTo_update rs s t.ledger l' [] sound.ledgers
  rw [append_nil] at ledgers
  unfold called
  rw [left.called]
  exact ⟨⟨[], torn_nil, (append_nil _).symm⟩, sound.readable, ledgers ⟨_, here⟩, sound.once,
    sound.told.quiet left.quiet.nothing left.quiet.calm⟩

/-- What a section adds to the records: nothing, or the one it writes. -/
inductive Adds (rs : List Rec) (s : System) (t : Turn) : List Rec → Prop where
  | wrote {l : Ledger} {r : Rec} {answer : Answer} (current : Current rs l)
      (wrote : Wrote s t l (frames rs) r answer) : Adds rs s t [r]
  | left {l l' : Ledger} {result : Except Raised Answer} (current : Current rs l)
      (left : Left s t l (frames rs) result l') : Adds rs s t []

theorem Sound.adds (sound : Sound limits rs s) (allows : limits.Le t.host.loads) : ∃ more, Adds rs s t more := by
  obtain ⟨l, caught, current⟩ := sound.catchUp allows t.ledger
  rcases section_cases caught with ⟨r, answer, wrote⟩ | ⟨result, l', left⟩
  · exact ⟨_, .wrote current wrote⟩
  · exact ⟨_, .left current left⟩

theorem sound_call (sound : Sound limits rs s) (met : s.ReadableWrites limits t)
    (adds : Adds rs s t more) : Sound limits (rs ++ more) (s.called t) := by
  cases adds with
  | wrote current wrote => exact sound_wrote sound current wrote (met.2 _ wrote.writes)
  | left current left =>
    rw [append_nil]
    exact sound_left sound current left

/-- A new object in the place of one that died. -/
theorem sound_restarted {i : Nat} {more : List Rec} {file tail : Bytes} (sound : Sound limits rs s)
    (torn : Torn tail) (left : file = frames (rs ++ more) ++ tail) (readable : ∀ r ∈ rs ++ more, r.Readable limits)
    (once : ((rs ++ more).filterMap Rec.doneKey).Nodup) (begins : List Begin) :
    Sound limits (rs ++ more) { s.restarted i with file, begins } where
  file := ⟨tail, torn, left⟩
  readable := readable
  ledgers := upTo_update sound.ledgers ⟨0, upTo_new _ _⟩
  once := once
  told := sound.told.append more

theorem sound_torn {i : Nat} {file tail : Bytes} (sound : Sound limits rs s) (torn : Torn tail)
    (left : file = frames rs ++ tail) (begins : List Begin) :
    Sound limits rs { s.restarted i with file, begins } := by
  have kept := @sound_restarted limits rs s i [] file tail sound torn
  rw [append_nil] at kept
  exact kept left sound.readable sound.once begins

theorem sound_restart (sound : Sound limits rs s) (i : Nat) : Sound limits rs (s.restarted i) := by
  obtain ⟨tail, torn, whole⟩ := sound.file
  exact sound_torn sound torn whole s.begins

/-- A section that dies leaves its record only when all of it was written. -/
theorem sound_crash (sound : Sound limits rs s) (met : s.ReadableWrites limits t)
    (adds : Adds rs s t more) (written : Nat) :
    Sound limits rs (s.crashed t written) ∨
      (∀ r ∈ more, r.frame.length ≤ written) ∧ Sound limits (rs ++ more) (s.crashed t written) := by
  cases adds with
  | @wrote l r answer current wrote =>
    have left := wrote.crashed written
    by_cases part : written < r.frame.length
    · exact Or.inl (sound_torn sound ⟨r, written, wrote.small, part, rfl⟩ left _)
    · refine Or.inr ⟨?_, sound_restarted sound torn_nil ?_
        (readable_append sound.readable (met.2 r wrote.writes)) (once_append sound.once current wrote.appends) _⟩
      · intro r' mem
        rw [mem_singleton.1 mem]
        exact Nat.not_lt.1 part
      · rw [left, List.take_of_length_le (Nat.not_lt.1 part), frames_snoc, append_nil]
  | left current left =>
    refine Or.inl (sound_torn sound torn_nil ?_ _)
    rw [left.crashed, append_nil]

end Sound

/-- The limits of the runs below, and an interpreter that has them everywhere. -/
def usual : Limits := ⟨900, 4300⟩
def python : Host := ⟨usual, usual, usual⟩

theorem usual_le : usual.Le python.loads := ⟨Nat.le_refl _, Nat.le_refl _⟩

theorem job_formed : StrFormed job := Rec.strFormed_low (by decide)

/-- A reader with less room than the writer had: the entry is acknowledged, and every section
of the reader raises. -/
example :
    let s := (start "effects.ledger").called ⟨0, python, .putIfAbsent job (.array [.array []]) 0⟩
    s.log.map Event.added = [some job] ∧
      ((s.ledgers 1).catchUp { python with loads := ⟨2, 4300⟩ } s.file).1 = some (.json .recursionError) := by
  decide +kernel

section Lost

variable {r : Rec}

end Lost

/-! ## Tokens -/

/-- No result follows a claim of its key with a lower token. -/
def FencedPair (r r' : Rec) : Prop :=
  ∀ key t t' value, r = .claim key t → r' = .done key t' value → t ≤ t'

/-- A run of the key with this token is not superseded; a token of 0 or less claims nothing. -/
def Allows (key : Str) (token : Int) (b : Begin) : Prop :=
  b.key = key → b.token ≤ token ∨ b.token ≤ 0

/-- The run has begun, and since then no other that supersedes it. -/
def InForce (i : Nat) (key : Str) (token : Int) : List Begin → Prop
  | [] => False
  | b :: older => b = ⟨i, key, token, false⟩ ∨ Allows key token b ∧ InForce i key token older

/-- The order of the calls: no run with a higher token has begun, between the two sections of
`once` or before `put_if_absent`. -/
def InOrder (s : System) (t : Turn) : Prop :=
  match t.call with
  | .putIfAbsent key _ token => ∀ b ∈ s.begins, Allows key token b
  | .onceEnd key token _ => InForce t.ledger key token s.begins
  | _ => True

/-- And where a section writes a result, its call is in order. -/
def FencedWrites (limits : Limits) (s : System) (t : Turn) : Prop :=
  s.ReadableWrites limits t ∧ ∀ r, s.Writes t r → s.InOrder t

/-- What the claims in the file have to do with the runs that have begun. -/
structure Claimed (rs : List Rec) (begins : List Begin) : Prop where
  ordered : rs.Pairwise FencedPair
  begun : ∀ key t, .claim key t ∈ rs → 0 < t ∧ ∃ b ∈ begins, b.key = key ∧ b.token = t
  inForce : ∀ i key token, InForce i key token begins → ∀ t, .claim key t ∈ rs → t ≤ token

section Fencing

variable {limits : Limits} {rs : List Rec} {begins : List Begin} {s s' : System} {t : Turn}

theorem claimed_start : Claimed [] [] := ⟨.nil, by rintro _ _ ⟨⟩, by rintro _ _ _ ⟨⟩⟩

/-- A run begins whose token no claim supersedes, or dies. -/
theorem Claimed.runs (claimed : Claimed rs begins) {b : Begin}
    (checked : b.died = false → ∀ t, .claim b.key t ∈ rs → t ≤ b.token) : Claimed rs (b :: begins) := by
  refine ⟨claimed.ordered, ?_, ?_⟩
  · intro key t mem
    obtain ⟨positive, old, listed, same⟩ := claimed.begun key t mem
    exact ⟨positive, old, List.mem_cons_of_mem _ listed, same⟩
  · rintro i key token (rfl | ⟨-, inForce⟩) t mem
    · exact checked rfl t mem
    · exact claimed.inForce i key token inForce t mem

/-- The run that began last claims its key. -/
theorem Claimed.claim {b : Begin} (claimed : Claimed rs (b :: begins)) (positive : 0 < b.token) :
    Claimed (rs ++ [.claim b.key b.token]) (b :: begins) := by
  refine ⟨?_, ?_, ?_⟩
  · refine List.pairwise_append.2 ⟨claimed.ordered, List.pairwise_singleton _ _, ?_⟩
    rintro r - r' here key t t' value - rfl
    cases mem_singleton.1 here
  · intro key t mem
    rcases mem_append.1 mem with old | new
    · exact claimed.begun key t old
    · cases mem_singleton.1 new
      exact ⟨positive, b, List.mem_cons_self, rfl, rfl⟩
  · intro i key token inForce t mem
    rcases mem_append.1 mem with old | new
    · exact claimed.inForce i key token inForce t old
    · cases mem_singleton.1 new
      rcases inForce with own | ⟨allows, -⟩
      · exact Int.le_of_eq (congrArg Begin.token own)
      · exact (allows rfl).resolve_right (Int.not_le.2 positive)

variable {key : Str} {token : Int} {more : List Rec}

/-- A result whose token no claim of its key supersedes. -/
theorem Claimed.result {value : Json} (claimed : Claimed rs begins)
    (newest : ∀ t, .claim key t ∈ rs → t ≤ token) : Claimed (rs ++ [.done key token value]) begins := by
  have old : ∀ {name : Str} {t : Int}, .claim name t ∈ rs ++ [.done key token value] → .claim name t ∈ rs := by
    intro name t mem
    rcases mem_append.1 mem with old | new
    · exact old
    · cases mem_singleton.1 new
  refine ⟨?_, fun key t mem => claimed.begun key t (old mem),
    fun i key token inForce t mem => claimed.inForce i key token inForce t (old mem)⟩
  refine List.pairwise_append.2 ⟨claimed.ordered, List.pairwise_singleton _ _, ?_⟩
  rintro r mem r' here name t t' v rfl rfl
  cases mem_singleton.1 here
  exact newest t mem

/-- No claim supersedes a result whose call is in order. -/
theorem Claimed.put (claimed : Claimed rs begins)
    (allows : ∀ b ∈ begins, Allows key token b) : ∀ t, .claim key t ∈ rs → t ≤ token := by
  intro t mem
  obtain ⟨positive, b, listed, rfl, rfl⟩ := claimed.begun key t mem
  exact (allows b listed rfl).resolve_right (Int.not_le.2 positive)

/-- What a section writes keeps the claims in order, with the run that it begins. -/
theorem Claimed.wrote {l : Ledger} {r : Rec} {answer : Answer} (claimed : Claimed rs s.begins)
    (current : Current rs l) (appends : Appends l t.call r answer) (inOrder : s.InOrder t)
    (died : Bool) : Claimed (rs ++ [r]) (t.call.begins t.ledger died ++ s.begins) := by
  unfold InOrder at inOrder
  generalize t.call = c at appends inOrder ⊢
  cases appends with
  | put absent => exact claimed.result (claimed.put inOrder)
  | record absent => exact claimed.result (claimed.inForce _ _ _ inOrder)
  | @claim key token absent newer =>
    rw [current.same_reading.2] at newer
    have begun : Claimed rs (⟨t.ledger, key, token, died⟩ :: s.begins) :=
      claimed.runs fun _ t mem => Int.le_of_lt (Int.lt_of_le_of_lt (claim_le_reading mem) newer)
    exact begun.claim (Int.lt_of_le_of_lt (claims_nonneg rs key) newer)

theorem claimed_call (claimed : Claimed rs s.begins) (met : s.FencedWrites limits t)
    (adds : Adds rs s t more) : Claimed (rs ++ more) (s.called t).begins := by
  cases adds with
  | @wrote l r answer current wrote =>
    have begins : (s.called t).begins = t.call.begins t.ledger false ++ s.begins := by
      have appends := wrote.appends
      unfold called beginsAfter
      rw [wrote.called]
      generalize t.call = c at appends ⊢
      cases appends <;> rfl
    rw [begins]
    exact claimed.wrote current wrote.appends (met.2 r wrote.writes) false
  | @left l l' result current left =>
    have begins : (s.called t).begins = s.beginsAfter t.ledger t.call result :=
      congrArg (fun d => s.beginsAfter t.ledger t.call (Section.result d)) left.called
    rw [begins, append_nil]
    unfold beginsAfter
    split
    · rename_i key token call
      refine claimed.runs fun _ t mem => ?_
      have newest := left.quiet.newest key token call rfl
      rw [current.same_reading.2] at newest
      exact Int.le_trans (claim_le_reading mem) newest
    · exact claimed

/-- A section that died before its claim was written leaves none. -/
theorem claimed_died (claimed : Claimed rs s.begins) (written : Nat) : Claimed rs (s.beginsAfterCrash t written) := by
  unfold beginsAfterCrash
  split
  · split
    · exact claimed.runs (by rintro ⟨⟩)
    · exact claimed
  · exact claimed

theorem claimed_crash {written : Nat} (claimed : Claimed rs s.begins)
    (met : s.FencedWrites limits t) (adds : Adds rs s t more) (whole : ∀ r ∈ more, r.frame.length ≤ written) :
    Claimed (rs ++ more) (s.crashed t written).begins := by
  show Claimed _ (s.beginsAfterCrash t written)
  cases adds with
  | left current left =>
    rw [append_nil]
    exact claimed_died claimed written
  | @wrote l r answer current wrote =>
    have begins : s.beginsAfterCrash t written = t.call.begins t.ledger true ++ s.begins := by
      have appends := wrote.appends
      unfold beginsAfterCrash
      generalize t.call = c at appends ⊢
      cases appends with
      | put | record => rfl
      | claim => exact if_pos (whole _ (List.mem_singleton_self _))
    rw [begins]
    exact claimed.wrote current wrote.appends (met.2 r wrote.writes) true

theorem claimed_step (sound : Sound limits rs s) (claimed : Claimed rs s.begins)
    (step : Step (FencedWrites limits) s s') : ∃ rs', Sound limits rs' s' ∧ Claimed rs' s'.begins := by
  cases step with
  | call t begun met =>
    obtain ⟨more, adds⟩ := sound.adds met.1.1
    exact ⟨_, sound_call sound met.1 adds, claimed_call claimed met adds⟩
  | crash t written begun met =>
    obtain ⟨more, adds⟩ := sound.adds met.1.1
    rcases sound_crash sound met.1 adds written with torn | ⟨whole, sound'⟩
    · exact ⟨_, torn, claimed_died claimed written⟩
    · exact ⟨_, sound', claimed_crash claimed met adds whole⟩
  | restart i => exact ⟨_, sound_restart sound i, claimed⟩

/-- Every run in which each record can be read back and every call that records a result is
in order: in the file, no result stands behind a claim of its key with a higher token; and
every ledger reads the file so. -/
theorem fenced {path : String} (run : Runs (FencedWrites limits) (start path) s) :
    ∃ rs tail, Torn tail ∧ s.file = frames rs ++ tail ∧ rs.Pairwise FencedPair ∧
      ∀ i host, limits.Le host.loads →
        ∃ l, (s.ledgers i).catchUp host s.file = (none, l, frames rs) ∧ l.Same (reading rs) := by
  have kept : ∃ rs, Sound limits rs s ∧ Claimed rs s.begins := by
    induction run with
    | refl => exact ⟨[], sound_start limits path, claimed_start⟩
    | tail before step ih =>
      obtain ⟨rs, sound, claimed⟩ := ih
      exact claimed_step sound claimed step
  obtain ⟨rs, sound, claimed⟩ := kept
  obtain ⟨tail, torn, whole⟩ := sound.file
  refine ⟨rs, tail, torn, whole, claimed.ordered, ?_⟩
  intro i host allows
  obtain ⟨l, caught, current⟩ := sound.catchUp allows i
  exact ⟨l, caught, current.same_reading⟩

end Fencing

/-! ## Two runs of one key -/

/-- A run whose key is done writes nothing. -/
theorem fencedWrites_of_known {limits : Limits} {s : System} {t : Turn} {key : Str} {token : Int} {value : Json}
    (readable : s.ReadableWrites limits t) (call : t.call = .onceEnd key token value)
    (known : (((s.ledgers t.ledger).catchUp t.host s.file).2.1.find key).isSome = true) :
    s.FencedWrites limits t := by
  refine ⟨readable, ?_⟩
  rintro r ⟨l, file, answer, caught, body, -⟩
  rw [caught] at known
  obtain ⟨entry, found⟩ := Option.isSome_iff_exists.1 known
  rw [call] at body
  have body : Ledger.onceEnd key token value l = _ := body
  unfold Ledger.onceEnd at body
  rw [found] at body
  cases body

/-- The sections of two runs, the second with a higher token. -/
def begin₁ : Turn := ⟨0, python, .onceBegin job 1⟩
def begin₂ : Turn := ⟨1, python, .onceBegin job 2⟩
def end₁ : Turn := ⟨0, python, .onceEnd job 1 (.int 7)⟩
def end₂ : Turn := ⟨1, python, .onceEnd job 2 (.int 8)⟩

theorem turns_formed : begin₁.call.Formed usual ∧ begin₂.call.Formed usual ∧ end₁.call.Formed usual ∧
    end₂.call.Formed usual :=
  ⟨⟨job_formed, by decide +kernel, by decide +kernel⟩, ⟨job_formed, by decide +kernel, by decide +kernel⟩,
    ⟨job_formed, trivial, by decide +kernel, by decide +kernel⟩,
    ⟨job_formed, trivial, by decide +kernel, by decide +kernel⟩⟩

/-- Both runs have begun. -/
def claimedTwice : System := ((start "effects.ledger").called begin₁).called begin₂

theorem claimedTwice_runs : Runs (FencedWrites usual) (start "effects.ledger") claimedTwice :=
  (Relation.ReflTransGen.single (Step.call begin₁ trivial
    ⟨readableWrites_of_formed usual_le turns_formed.1 _, fun _ _ => trivial⟩)).tail
    (Step.call begin₂ trivial ⟨readableWrites_of_formed usual_le turns_formed.2.1 _, fun _ _ => trivial⟩)

/-- A run that is superseded and finds the result of its successor. -/
theorem fenced_successor :
    ∃ s, s.log.map Event.answered = [none, none, some [0x38], some [0x38]] ∧
      Runs (FencedWrites usual) (start "effects.ledger") s ∧
      ∃ rs tail, Torn tail ∧ s.file = frames rs ++ tail ∧ rs.Pairwise FencedPair ∧
        ∀ i host, usual.Le host.loads →
          ∃ l, (s.ledgers i).catchUp host s.file = (none, l, frames rs) ∧ l.Same (reading rs) := by
  have newest : claimedTwice.FencedWrites usual end₂ := by
    refine ⟨readableWrites_of_formed usual_le turns_formed.2.2.2 _, fun _ _ => ?_⟩
    have begins : claimedTwice.begins = [⟨1, job, 2, false⟩, ⟨0, job, 1, false⟩] := by decide +kernel
    show InForce 1 job 2 claimedTwice.begins
    rw [begins]
    exact Or.inl rfl
  have refused : (claimedTwice.called end₂).FencedWrites usual end₁ :=
    fencedWrites_of_known (readableWrites_of_formed usual_le turns_formed.2.2.1 _) rfl (by decide +kernel)
  have begun : claimedTwice.Begun end₂ ∧ (claimedTwice.called end₂).Begun end₁ := by
    show (1, job, 2) ∈ claimedTwice.running ∧ (0, job, 1) ∈ (claimedTwice.called end₂).running
    decide +kernel
  have run := (claimedTwice_runs.tail (Step.call end₂ begun.1 newest)).tail (Step.call end₁ begun.2 refused)
  exact ⟨_, by decide +kernel, run, fenced run⟩

/-- The first run claims the key with token 1, the second supersedes it with token 2, and
then the first one records its result, which the second one returns. -/
theorem zombie_recorded :
    ∃ s, Runs (ReadableWrites usual) (start "effects.ledger") s ∧
      s.log.map Event.call = [.onceBegin job 1, .onceBegin job 2, .onceEnd job 1 (.int 7), .onceEnd job 2 (.int 8)] ∧
      s.log.map Event.answered = [none, none, some [0x37], some [0x37]] ∧
      s.file = frames [.claim job 1, .claim job 2, .done job 1 (.int 7)] ∧
      ¬ [Rec.claim job 1, .claim job 2, .done job 1 (.int 7)].Pairwise FencedPair := by
  have claimed : Runs (ReadableWrites usual) (start "effects.ledger") claimedTwice :=
    Relation.ReflTransGen.mono (fun _ _ => Step.weaken fun _ _ met => met.1) _ _ claimedTwice_runs
  have begun : claimedTwice.Begun end₁ ∧ (claimedTwice.called end₁).Begun end₂ := by
    show (0, job, 1) ∈ claimedTwice.running ∧ (1, job, 2) ∈ (claimedTwice.called end₁).running
    decide +kernel
  have run := (claimed.tail (Step.call end₁ begun.1
    (readableWrites_of_formed usual_le turns_formed.2.2.1 _))).tail
    (Step.call end₂ begun.2 (readableWrites_of_formed usual_le turns_formed.2.2.2 _))
  refine ⟨_, run, rfl, by decide +kernel, by decide +kernel, ?_⟩
  intro fenced
  have pair := (List.pairwise_cons.1 (List.pairwise_cons.1 fenced).2).1 _ (List.mem_singleton_self _)
  exact absurd (pair job 2 1 (.int 7) rfl rfl) (by decide)

end System

end Baton.Sdk
