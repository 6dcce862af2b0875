import Chip8.Proofs.Execution
import Chip8.Proofs.Guarded

/-! Memory as a store.

Whatever is asked of a memory, a byte of it is what was stored there last: by a write or a fill
whose range it is in, or by a load, which stores something in every byte from where programs
start on. What was refused counts for nothing. The cursor goes its own way: what is stored does
not move it, unless it is a program, and where it goes nothing is stored.

A request is refused or not, and moves the cursor, by what is said here of it and of the cursor
alone (`refusal`, `moves`), and what it stores depends on neither (`stores`). That is what comes
of one request (`serve_outcome`), and the rest is an induction over their sequence. -/
namespace Chip8.Memory

/-! ### Requests on paper -/

namespace Request

/-- The program that a request is to load, if it can be read. -/
def program? : Request → Option (List UInt8)
  | load program => some program
  | loadFrom stream => stream.readAll.1.toOption
  | _ => none

/-- What a request stores at an address, if it stores anything there. -/
def stores (a : Nat) : Request → Option UInt8
  | write addr data => if addr.toNat ≤ a then data[a - addr.toNat]? else none
  | fill addr len value =>
    if addr.toNat ≤ a ∧ a < addr.toNat + len then some value else none
  | r =>
    if 0x200 ≤ a then r.program?.map fun program => program[a - 0x200]?.getD 0 else none

/-- Where a request takes the cursor. -/
def moves (cursor : Nat) : Request → Nat
  | load _ | loadFrom _ => 0x200
  | readByte => cursor + 1
  | seek addr => addr.toNat
  | advance count => cursor + count.toNat
  | _ => cursor

/-- Why a range of bytes is refused. -/
def pastEnd (addr : UInt16) (len : Nat) : Option Fault :=
  if addr.toNat + len ≤ 4096 then none
  else some (.badAddress (min (addr.toNat + len) (2 ^ 64 - 1)))

/-- Why a place for the cursor is refused. -/
def noPlace (target : Nat) : Option Fault :=
  if target < 4096 then none else some (.badAddress target)

/-- Why a request is refused while the cursor is at this place. -/
def refusal (cursor : UInt16) : Request → Option Fault
  | load _ => none
  | loadFrom stream =>
    match stream.readAll.1 with
    | .ok _ => none
    | .error e => some (.input e)
  | write addr data => pastEnd addr data.length
  | fill addr len _ | slice addr len => pastEnd addr len
  | word addr => pastEnd addr 2
  | readByte => if cursor.toNat < 4096 then none else some (.endOfMemory cursor)
  | seek addr => noPlace addr.toNat
  | advance count => noPlace (cursor.toNat + count.toNat)

end Request

/-! ### One request -/

/-- The memory after a request, which is as it was if the request is refused. -/
def after (m : Memory) (r : Request) : Memory :=
  match m.serve r with
  | .ok (_, next) => next
  | .error _ => m

/-- What a request that is granted makes of a memory. -/
structure Granted (m : Memory) (r : Request) (m' : Memory) : Prop where
  bytes : ∀ a, m'.bytes a = (r.stores a).getD (m.bytes a)
  cursor : m'.cursor.toNat = r.moves m.cursor.toNat

/-- A request is refused for its reason, or granted if there is none. -/
inductive Outcome (m : Memory) (r : Request) : Except Fault (Response × Memory) → Prop
  | refused {e : Fault} (h : r.refusal m.cursor = some e) : Outcome m r (.error e)
  | granted {response : Response} {m' : Memory} (h : r.refusal m.cursor = none)
      (hgranted : Granted m r m') : Outcome m r (.ok (response, m'))

section Outcome
variable (m : Memory)

/-- What stores nothing moves the cursor at most. -/
theorem granted_moved {r : Request} {cursor : UInt16} (hstores : ∀ a, r.stores a = none)
    (hmoves : cursor.toNat = r.moves m.cursor.toNat) : Granted m r { m with cursor } :=
  ⟨fun a => by rw [hstores]; rfl, hmoves⟩

/-- A program is stored in every byte from where programs start on, and in no other. -/
theorem granted_load {r : Request} {program : List UInt8} (h : r.program? = some program)
    (hmoves : ∀ cursor, r.moves cursor = 0x200) : Granted m r (m.load program).2 := by
  have hstores (a : Nat) :
      r.stores a = if 0x200 ≤ a then some (program[a - 0x200]?.getD 0) else none := by
    cases r with
    | load _ | loadFrom _ => simp only [Request.stores, h, Option.map_some]
    | _ => cases h
  refine ⟨fun a => ?_, (hmoves _).symm⟩
  have hload : (m.load program).2.bytes a =
      if a.val < 0x200 then m.bytes a else program.toArray[a.val - 0x200]?.getD 0 := rfl
  rw [hstores, hload, List.getElem?_toArray]
  by_cases ha : a.val < 0x200
  · rw [if_pos ha, if_neg (Nat.not_le_of_lt ha), Option.getD_none]
  · rw [if_neg ha, if_pos (Nat.le_of_not_lt ha), Option.getD_some]

/-- An operation with one condition is granted where the condition holds, and elsewhere refused. -/
theorem outcome_of_guard {α : Type} {r : Request} {p : Prop} [Decidable p] {e : Fault}
    {x : Except Fault α} {f : α → Response × Memory} (hserve : m.serve r = x.map f)
    (h : r.refusal m.cursor = if p then none else some e)
    (hok : p → ∃ a, x = .ok a ∧ Granted m r (f a).2) (herror : ¬p → x = .error e) :
    Outcome m r (m.serve r) := by
  rw [hserve]
  split at h
  case isTrue hp =>
    obtain ⟨a, rfl, hgranted⟩ := hok hp
    exact .granted h hgranted
  case isFalse hp =>
    rw [herror hp]
    exact .refused h

/-- Every request comes to what is said of it on paper. -/
theorem serve_outcome (r : Request) : Outcome m r (m.serve r) := by
  cases r with
  | load program => exact .granted rfl (granted_load m rfl fun _ => rfl)
  | loadFrom stream =>
    simp only [serve, loadFrom]
    cases hread : stream.readAll with
    | mk result left =>
      cases result with
      | ok program =>
        refine .granted ?_ (granted_load m ?_ fun _ => rfl)
        · simp only [Request.refusal, hread]
        · simp only [Request.program?, hread, Except.toOption]
      | error e =>
        refine .refused ?_
        simp only [Request.refusal, hread]
  | write addr data =>
    refine outcome_of_guard m rfl rfl (fun h => ⟨_, if_pos h, fun a => ?_, rfl⟩) fun h => if_neg h
    simp only [Request.stores, List.getElem?_toArray]
    split <;> rfl
  | fill addr len value =>
    refine outcome_of_guard m rfl rfl (fun h => ⟨_, if_pos h, fun a => ?_, rfl⟩) fun h => if_neg h
    simp only [Request.stores]
    split <;> rfl
  | slice addr len =>
    have hsame : Granted m (.slice addr len) m := granted_moved m (fun _ => ite_self _) rfl
    exact outcome_of_guard m rfl rfl (fun h => ⟨_, dif_pos h, hsame⟩) fun h => dif_neg h
  | word addr =>
    have hsame : Granted m (.word addr) m := granted_moved m (fun _ => ite_self _) rfl
    exact outcome_of_guard m rfl rfl (fun h => ⟨_, dif_pos h, hsame⟩) fun h => dif_neg h
  | readByte =>
    refine outcome_of_guard m rfl rfl (fun h => ⟨_, dif_pos h, ?_⟩) fun h => dif_neg h
    exact granted_moved m (fun _ => ite_self _) (toNat_add_of_le (d := 1) h)
  | seek addr =>
    refine outcome_of_guard m rfl rfl (fun h => ⟨_, if_pos h, ?_⟩) fun h => if_neg h
    exact granted_moved m (fun _ => ite_self _) rfl
  | advance count =>
    refine outcome_of_guard m rfl rfl (fun h => ⟨_, if_pos h, ?_⟩) fun h => if_neg h
    exact granted_moved m (fun _ => ite_self _) (Nat.mod_eq_of_lt (Nat.lt_trans h (by decide)))

end Outcome

/-! ### Requests one after another -/

/-- The memory after requests, granted or not. -/
def afterAll (m : Memory) (requests : List Request) : Memory := requests.foldl after m

/-- Those of the requests that are granted, in order. -/
def granted (m : Memory) : List Request → List Request
  | [] => []
  | r :: rest =>
    match m.serve r with
    | .ok (_, next) => r :: next.granted rest
    | .error _ => m.granted rest

/-- What the last of some requests to store anything at an address stores there. -/
def lastStored (requests : List Request) (a : Nat) : Option UInt8 :=
  requests.reverse.findSome? (·.stores a)

theorem lastStored_cons (r : Request) (rest : List Request) (a : Nat) :
    lastStored (r :: rest) a = (lastStored rest a).or (r.stores a) := by
  rw [lastStored, List.reverse_cons, List.findSome?_append, lastStored]
  congr 1
  simp

/-- A byte that nothing was stored in is what it was. -/
theorem bytes_afterAll (m : Memory) (requests : List Request) (a : Fin size) :
    (m.afterAll requests).bytes a = (lastStored (m.granted requests) a).getD (m.bytes a) := by
  induction requests generalizing m with
  | nil => rfl
  | cons r rest ih =>
    have houtcome := serve_outcome m r
    rw [afterAll, List.foldl_cons, ← afterAll, ih, after, granted]
    generalize m.serve r = x at houtcome
    cases houtcome with
    | refused h => rfl
    | granted h hgranted =>
      dsimp only
      rw [lastStored_cons, hgranted.bytes]
      cases lastStored (Memory.granted _ rest) a <;> rfl

/-- Only reading takes the cursor to the end of memory, and nothing takes it further. -/
theorem moves_le {m : Memory} {r : Request} (h : r.refusal m.cursor = none)
    (hm : m.cursor.toNat ≤ 4096) : r.moves m.cursor.toNat ≤ 4096 ∧
      (m.cursor.toNat < 4096 → r.moves m.cursor.toNat = 4096 → r = .readByte) := by
  have hbelow {target : Nat} (hfree : Request.noPlace target = none) : target < 4096 := by
    simpa [Request.noPlace] using hfree
  cases r with
  | load _ | loadFrom _ => exact ⟨Nat.le_of_ble_eq_true rfl, nofun⟩
  | write _ _ | fill _ _ _ | slice _ _ | word _ =>
    exact ⟨hm, fun hlt heq => absurd heq (Nat.ne_of_lt hlt)⟩
  | readByte =>
    have hlt : m.cursor.toNat < 4096 := by simpa [Request.refusal] using h
    exact ⟨hlt, fun _ _ => rfl⟩
  | seek addr | advance count =>
    have hlt := hbelow h
    exact ⟨Nat.le_of_lt hlt, fun _ heq => absurd heq (Nat.ne_of_lt hlt)⟩

theorem cursor_after {m : Memory} (hm : m.cursor.toNat ≤ 4096) (r : Request) :
    (m.after r).cursor.toNat ≤ 4096 ∧
      (m.cursor.toNat < 4096 → (m.after r).cursor.toNat = 4096 → r = .readByte) := by
  have houtcome := serve_outcome m r
  unfold after
  generalize m.serve r = x at houtcome
  cases houtcome with
  | refused h => exact ⟨hm, fun hlt heq => absurd heq (Nat.ne_of_lt hlt)⟩
  | granted h hgranted =>
    dsimp only
    rw [hgranted.cursor]
    exact moves_le h hm

theorem cursor_afterAll {m : Memory} (hm : m.cursor.toNat ≤ 4096) (requests : List Request) :
    (m.afterAll requests).cursor.toNat ≤ 4096 := by
  induction requests generalizing m with
  | nil => exact hm
  | cons r rest ih => exact ih (cursor_after hm r).1

/-! ### The last writer wins -/

/-- What a memory has become of requests to a blank one, and what it will make of the next. -/
structure Store (requests : List Request) (m : Memory) : Prop where
  /-- A byte is what was stored there last, and zero if nothing was. -/
  bytes : ∀ a : Fin size, m.bytes a = (lastStored (blank.granted requests) a).getD 0
  cursor : m.cursor.toNat ≤ 4096
  refused : ∀ r e, m.serve r = .error e ↔ r.refusal m.cursor = some e
  /-- What is refused changes nothing. -/
  unchanged : ∀ r e, m.serve r = .error e → m.after r = m
  /-- What is granted changes the bytes that it stores, and no other, and moves the cursor as it
  should. -/
  granted : ∀ r response m', m.serve r = .ok (response, m') → m.after r = m' ∧ Granted m r m'
  /-- A program is cut off where memory ends, and what is below it stays. -/
  loads : ∀ r program, r.program? = some program → ∃ m',
    m.serve r = .ok (.loaded ⟨min program.length 3584, program.length - min program.length 3584⟩, m') ∧
      m'.cursor = 0x200 ∧ ∀ a : Fin size, a.val < 0x200 → m'.bytes a = m.bytes a
  /-- Only reading a byte brings the cursor to the end of memory. -/
  onlyReading : ∀ r, m.cursor.toNat < 4096 → (m.after r).cursor.toNat = 4096 → r = .readByte

theorem serve_error_iff (m : Memory) (r : Request) (e : Fault) :
    m.serve r = .error e ↔ r.refusal m.cursor = some e := by
  have houtcome := serve_outcome m r
  generalize m.serve r = x at houtcome ⊢
  cases houtcome with
  | refused h => simp [h]
  | granted h _ => simp [h]

theorem serve_program (m : Memory) {r : Request} {program : List UInt8}
    (h : r.program? = some program) :
    m.serve r = .ok (.loaded (m.load program).1, (m.load program).2) := by
  cases r with
  | load _ =>
    cases h
    rfl
  | loadFrom stream =>
    simp only [serve, loadFrom]
    simp only [Request.program?] at h
    cases hread : stream.readAll with
    | mk result left =>
      rw [hread] at h
      cases result with
      | ok _ =>
        cases h
        rfl
      | error e => cases h
  | _ => cases h

/-- **A memory is a store in which the last writer wins.** -/
theorem last_writer_wins (requests : List Request) : Store requests (blank.afterAll requests) := by
  have hcursor := cursor_afterAll (m := blank) (by decide) requests
  refine
    { bytes := bytes_afterAll blank requests
      cursor := hcursor
      refused := serve_error_iff _
      unchanged := fun r e h => by rw [after, h]
      granted := fun r response m' h => ?_
      loads := fun r program h => ?_
      onlyReading := fun r => (cursor_after hcursor r).2 }
  · have houtcome := serve_outcome (blank.afterAll requests) r
    rw [h] at houtcome
    cases houtcome with
    | granted _ hgranted => exact ⟨by rw [after, h], hgranted⟩
  · exact ⟨_, serve_program _ h, rfl, fun a ha => if_pos ha⟩

/-- A write to the end of memory and a place for the cursor there are refused, an empty range is
not; the load has the last word above the write that it is over, and not below. -/
example :
    let requests := [.write 0x1FF [0xAA, 0xBB, 0xCC], .load [0x12], .write 0xFFF [1, 2],
      .fill 0x1000 0 7, .seek 0x1000]
    (blank.granted requests).length = 3 ∧
      [0x1FE, 0x1FF, 0x200, 0x201, 0xFFF].map (lastStored (blank.granted requests)) =
        [none, some 0xAA, some 0x12, some 0, some 0] := by
  decide +kernel

end Chip8.Memory
