/-
# Snapshot.Building — what a builder takes in

`StateBuilder` reads the sections of a snapshot and checks them field by field.  Here the
sections are any bytes.  `Grows` lists the five things the builder does to its state, each
with what was checked before it; `build_grows` says that it does nothing else, whatever
the sections are and however they came, so that a fact about every loaded state is five
cases.
-/
import Baton.Snapshot.Load
import Baton.State.Replay
import Mathlib.Logic.Relation

namespace Baton

open Theory

set_option autoImplicit false

namespace StateBuilder

/-! ## Sections -/

/-- A section, as the type of its chunk or its place says. -/
inductive Piece where
  | ofMeta (bytes : Bytes)
  | ofJobs (bytes : Bytes)
  | ofIdem (bytes : Bytes)

def addPiece (b : StateBuilder) : Piece → Result StateBuilder
  | .ofMeta bytes => b.addMeta bytes
  | .ofJobs bytes => b.addJobs bytes
  | .ofIdem bytes => b.addIdem bytes

def addPieces : List Piece → StateBuilder → Result StateBuilder
  | [], b => .ok b
  | piece :: pieces, b =>
    match b.addPiece piece with
    | .error e => .error e
    | .ok b => addPieces pieces b

/-- The sections go to a new builder one after the other. -/
def build (pieces : List Piece) (options : StateOptions) (platform : Platform) : Result State :=
  match addPieces pieces (new options platform) with
  | .error e => .error e
  | .ok b => b.finish

/-! ## Growth -/

/-- What the builder has checked of a job when it inserts it. -/
structure Takes (b : StateBuilder) (job : Job) : Prop where
  have_meta : b.haveMeta = true
  missing : b.state.findJob job.id = none
  known : job.id < b.state.nextJobId
  queue : job.queue ∈ b.queueByIndex
  unready : job.state ≠ .kReady
  times : badTimes job = false
  issued : job.leaseToken < b.state.nextToken
  token : job.state.holdsToken = decide (job.leaseToken ≠ 0)
  attempts : job.attempts ≤ job.maxAttempts

inductive Grows : StateBuilder → StateBuilder → Prop where
  | counters {b : StateBuilder} (nextJobId nextToken : Nat) (fresh : b.haveMeta = false)
      (tokens : 0 < nextToken) : Grows b (b.withCounters nextJobId nextToken)
  | queue {b : StateBuilder} (queue : QueueImage) : Grows b (b.withQueue queue)
  | haveMeta {b : StateBuilder} : Grows b { b with haveMeta := true }
  | job {b : StateBuilder} {job : Job} (takes : b.Takes job) : Grows b (b.insertJob job)
  | entry {b : StateBuilder} (key : Bytes) (jobId : Nat) (expiresAt : Int) :
      Grows b { b with state := b.state.upsertIdem key jobId expiresAt, idemAdded := b.idemAdded + 1 }

section Growth

variable {b b' : StateBuilder} {r r' : ByteReader} {count : Nat} {bytes : Bytes}

open Relation (ReflTransGen)

variable {add : StateBuilder → ByteReader → Result (StateBuilder × ByteReader)}
  {P : StateBuilder → Prop} {pieces : List Piece} {options : StateOptions} {platform : Platform}
  {s : State}

/-- A loop grows the builder, where each of its rounds does. -/
theorem addLoop_grows (adds : ∀ {b r b' r'}, P b → add b r = .ok (b', r') → Grows b b' ∧ P b')
    (holds : P b) (added : addLoop add count b r = .ok (b', r')) : ReflTransGen Grows b b' := by
  induction count generalizing b r with
  | zero =>
    cases added
    exact .refl
  | succ count ih =>
    rw [addLoop] at added
    split at added
    · cases added
    rename_i first
    obtain ⟨grows, still⟩ := adds holds first
    exact .head grows (ih still added)

theorem addQueue_grows (added : b.addQueue r = .ok (b', r')) : Grows b b' := by
  obtain ⟨-, added⟩ := Result.check_ok added
  obtain ⟨-, added⟩ := Result.check_ok added
  cases added
  exact .queue ⟨r.bytes.1, ⟨_, _, _, _, _⟩⟩

theorem addMeta_grows (added : b.addMeta bytes = .ok b') : ReflTransGen Grows b b' := by
  unfold addMeta at added
  split at added
  · cases added
  rename_i fresh
  dsimp only at added
  split at added
  · cases added
  split at added
  · cases added
  split at added
  · cases added
  split at added
  · cases added
  rename_i queues
  split at added
  · cases added
  split at added
  · cases added
  cases added
  have first := Grows.counters (ByteReader.u8 ⟨bytes, true⟩).2.varint.1
    (ByteReader.u8 ⟨bytes, true⟩).2.varint.2.varint.1 (eq_false_of_ne_true fresh) (by omega)
  have rest := addLoop_grows (P := fun _ => True) (fun _ added => ⟨addQueue_grows added, trivial⟩)
    trivial queues
  exact (ReflTransGen.head first rest).tail .haveMeta

/-- A job is inserted after every check, and nothing else changes. -/
theorem addJob_grows (have_meta : b.haveMeta = true) (added : b.addJob r = .ok (b', r')) :
    Grows b b' ∧ b'.haveMeta = true := by
  have added : b.addJobAt r.varint.1 r.varint.2.varint.1 r.varint.2.varint.2 = .ok (b', r') := added
  unfold addJobAt at added
  split at added
  · cases added
  split at added
  · cases added
  rename_i name listed
  split at added
  · cases added
  rename_i unknown
  unfold addFields at added
  generalize readHead _ = read at added
  obtain ⟨head, r₁⟩ := read
  dsimp only at added
  split at added
  · cases added
  · cases added
  rename_i state _ _
  generalize readTail r₁ = read at added
  obtain ⟨tail, r₂⟩ := read
  have missing := Option.not_isSome_iff_eq_none.1 unknown
  have unready : fromPersisted state ≠ .kReady := by cases state <;> simp [fromPersisted]
  obtain ⟨-, added⟩ := Result.check_ok added
  obtain ⟨_, accepted, same⟩ := Result.bind_ok added
  cases same
  obtain ⟨⟨times, issued, token, attempts⟩, rfl⟩ := acceptJob_ok.1 accepted
  have known : r.varint.1 < b.state.nextJobId := by omega
  exact ⟨.job ⟨have_meta, missing, known, List.mem_of_getElem? listed, unready,
    times, issued, token, attempts⟩, have_meta⟩

theorem addEntry_grows (have_meta : b.haveMeta = true) (added : b.addEntry r = .ok (b', r')) :
    Grows b b' ∧ b'.haveMeta = true := by
  obtain ⟨-, added⟩ := Result.check_ok added
  obtain ⟨-, added⟩ := Result.check_ok added
  obtain ⟨-, added⟩ := Result.check_ok added
  cases added
  exact ⟨.entry _ _ _, have_meta⟩

theorem addItems_grows
    {early unknown excess trailing : String}
    (adds : ∀ {b r b' r'}, b.haveMeta = true → add b r = .ok (b', r') → Grows b b' ∧ b'.haveMeta = true)
    (added : addItems add early unknown excess trailing b bytes = .ok b') : ReflTransGen Grows b b' := by
  obtain ⟨have_meta, added⟩ := Result.check_ok added
  obtain ⟨-, added⟩ := Result.check_ok added
  obtain ⟨-, added⟩ := Result.check_ok added
  split at added
  · cases added
  rename_i loop
  obtain ⟨-, added⟩ := Result.check_ok added
  cases added
  exact addLoop_grows adds (by simpa using have_meta) loop

theorem addPiece_grows {piece : Piece} (added : b.addPiece piece = .ok b') : ReflTransGen Grows b b' := by
  cases piece with
  | ofMeta bytes => exact addMeta_grows added
  | ofJobs bytes => exact addItems_grows addJob_grows added
  | ofIdem bytes => exact addItems_grows addEntry_grows added

theorem addPieces_grows (added : addPieces pieces b = .ok b') : ReflTransGen Grows b b' := by
  induction pieces generalizing b with
  | nil =>
    cases added
    exact .refl
  | cons piece pieces ih =>
    rw [addPieces] at added
    split at added
    · cases added
    rename_i first
    exact (addPiece_grows first).trans (ih added)

/-- What is accepted grew from nothing; the end puts the keys in order. -/
theorem build_grows (built : build pieces options platform = .ok s) :
    ∃ b, ReflTransGen Grows (new options platform) b ∧
      s = { b.state with
        idemOrder := b.state.idemOrder.insertionSort fun x y => x.entry.expiresAt ≤ y.entry.expiresAt } := by
  unfold build at built
  split at built
  · cases built
  rename_i b added
  obtain ⟨-, built⟩ := Result.check_ok built
  cases built
  exact ⟨b, addPieces_grows added, rfl⟩

/-- What each step keeps, the builder keeps. -/
theorem grows_invariant (keeps : ∀ b b', Grows b b' → P b → P b')
    (grows : ReflTransGen Grows b b') (holds : P b) : P b' := by
  induction grows with
  | refl => exact holds
  | tail _ step ih => exact keeps _ _ step ih

theorem Grows.madeWith (grows : Grows b b')
    (made : b.state.MadeWith options platform) : b'.state.MadeWith options platform := by
  cases grows with
  | counters | queue | haveMeta => exact made
  | job takes =>
    unfold insertJob
    split <;> exact made
  | entry key jobId expiresAt =>
    unfold State.upsertIdem State.dropIdem
    split
    · exact made
    · split <;> exact made

theorem build_madeWith
    (built : build pieces options platform = .ok s) : s.MadeWith options platform := by
  obtain ⟨b, grows, rfl⟩ := build_grows built
  exact grows_invariant (P := fun b => b.state.MadeWith options platform) (fun _ _ step => step.madeWith)
    grows ⟨rfl, rfl⟩

end Growth

end StateBuilder

/-! ## Loading a file is building -/

section Files

variable {name : FileName} {options : StateOptions} {platform : Platform}

theorem addChunk_piece {sequence : Nat} {b b' : StateBuilder} {type : UInt8} {payload : Bytes}
    (added : addChunk name sequence b type payload = .ok b') : ∃ piece, b.addPiece piece = .ok b' := by
  unfold addChunk at added
  dsimp only at added
  split at added
  · cases added
  · cases added
  rename_i next chosen
  cases added
  split at chosen
  · exact ⟨.ofMeta payload, Option.some.inj chosen⟩
  split at chosen
  · exact ⟨.ofJobs payload, Option.some.inj chosen⟩
  split at chosen
  · exact ⟨.ofIdem payload, Option.some.inj chosen⟩
  · cases chosen

variable {s : State} {info : SnapshotInfo} {file : Bytes} {sizes : ReadSizes}

theorem loadChunks_pieces {fuel sequence : Nat} {reader : ChunkReader} {b : StateBuilder}
    {info' : SnapshotInfo} (loaded : loadChunks name fuel reader b sequence info = .ok (info', s)) :
    ∃ pieces b', StateBuilder.addPieces pieces b = .ok b' ∧ b'.finish = .ok s := by
  induction fuel generalizing reader b sequence info with
  | zero => cases loaded
  | succ fuel ih =>
    rw [loadChunks] at loaded
    dsimp only at loaded
    split at loaded
    · cases loaded
    split at loaded
    · cases loaded
    split at loaded
    · cases loaded
    split at loaded
    · cases loaded
    split at loaded
    · cases loaded
    split at loaded
    · split at loaded
      · cases loaded
      split at loaded
      · cases loaded
      split at loaded
      · cases loaded
      rename_i state finished
      cases loaded
      exact ⟨[], b, rfl, finished⟩
    · split at loaded
      · cases loaded
      rename_i next added
      obtain ⟨piece, first⟩ := addChunk_piece added
      obtain ⟨pieces, b', rest, finished⟩ := ih loaded
      refine ⟨piece :: pieces, b', ?_, finished⟩
      rw [StateBuilder.addPieces, first]
      exact rest

/-- A snapshot that loads is made of sections the builder accepts. -/
theorem loadSnapshot_built
    (loaded : loadSnapshot name file sizes options platform = .ok (info, s)) :
    ∃ pieces, StateBuilder.build pieces options platform = .ok s := by
  unfold loadSnapshot at loaded
  dsimp only at loaded
  split at loaded
  · cases loaded
  split at loaded
  · cases loaded
  obtain ⟨pieces, b, added, finished⟩ := loadChunks_pieces loaded
  refine ⟨pieces, ?_⟩
  unfold StateBuilder.build
  rw [added]
  exact finished

/-- A snapshot is loaded into a state with the options of the caller. -/
theorem loadSnapshot_madeWith
    (loaded : loadSnapshot name file sizes options platform = .ok (info, s)) :
    s.MadeWith options platform := by
  obtain ⟨pieces, built⟩ := loadSnapshot_built loaded
  exact StateBuilder.build_madeWith built

end Files

end Baton
