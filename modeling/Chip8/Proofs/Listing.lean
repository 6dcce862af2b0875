import Chip8.Proofs.Reading
import Chip8.Proofs.Transcript

/-! Reading a listing.

The text of an instruction can be read back (`Instruction.read_text`): its name ends with a blank,
its first operand with a comma, and no digit is either. So can a line of the log, whose address
ends with a colon (`Listing.line_executing`), and what a run has written there line by line
(`Machine.Traced.read`). Those are the instructions that its steps have executed, the one that
failed with them: a line is written before anything else is done. Which did not fail is known from
the result of the run (`Machine.completed_of_executions`). -/
namespace Chip8

/-! ### Digits -/

namespace Hex

variable {letters : Letters} {count n least : Nat}

/-- No digit is a mark between fields. -/
theorem digit_not_mem (h : n < 16) : digit letters n ∉ [',', ':'] := by
  have all : ∀ k : Fin 16, digit letters k ∉ [',', ':'] := by
    cases letters <;> decide
  exact all ⟨n, h⟩

theorem not_mem_digits {c : Char} (hc : c ∈ [',', ':']) :
    c ∉ digits letters count n := by
  induction count generalizing n with
  | zero => exact List.not_mem_nil
  | succ count ih =>
    rw [digits, List.mem_append, List.mem_singleton]
    rintro (hmem | rfl)
    · exact ih hmem
    · exact digit_not_mem (Nat.mod_lt n (by decide)) hc

/-- What is written in digits reads back. -/
theorem value_text : value (text letters least n).toList = n := by
  rw [text, String.toList_ofList]
  exact value_digits letters _ n (Nat.le_max_right least _)

theorem not_mem_text {c : Char} (hc : c ∈ [',', ':']) :
    c ∉ (text letters least n).toList := by
  rw [text, String.toList_ofList]
  exact not_mem_digits hc

end Hex

/-! ### Fields of a line -/

namespace Listing

/-- What stands before a mark, and what stands behind it; all and nothing if there is no mark. -/
def cut (mark : Char) (line : List Char) : List Char × List Char :=
  (line.takeWhile (· != mark), (line.dropWhile (· != mark)).tail)

variable {mark : Char} {front : List Char}

theorem cut_append (h : mark ∉ front) (rest : List Char) :
    cut mark (front ++ mark :: rest) = (front, rest) := by
  have hfront : ∀ c ∈ front, (c != mark) = true :=
    fun c hc => bne_iff_ne.mpr fun he => h (he ▸ hc)
  rw [cut, List.takeWhile_append_of_pos hfront, List.dropWhile_append_of_pos hfront]
  simp

theorem cut_of_not_mem (h : mark ∉ front) : cut mark front = (front, []) := by
  have hfront : ∀ c ∈ front, (c != mark) = true :=
    fun c hc => bne_iff_ne.mpr fun he => h (he ▸ hc)
  rw [cut, List.takeWhile_eq_self_iff.mpr hfront, List.dropWhile_eq_nil_iff.mpr hfront]
  rfl

/-- The name of an instruction and its operands, as far as there are any. -/
def fields (text : List Char) : String × List Char × List Char :=
  let (name, operands) := cut ' ' text
  let (first, second) := cut ',' operands
  (String.ofList name, first, second.tail)

section Fields
variable {name : String} {first second : List Char}

theorem fields_name (hname : ' ' ∉ name.toList) : fields name.toList = (name, [], []) := by
  simp only [fields, cut_of_not_mem hname, String.ofList_toList]
  rfl

theorem fields_one (hname : ' ' ∉ name.toList) (hfirst : ',' ∉ first) :
    fields (name.toList ++ ' ' :: first) = (name, first, []) := by
  simp only [fields, cut_append hname, cut_of_not_mem hfirst, String.ofList_toList, List.tail_nil]

theorem fields_two (hname : ' ' ∉ name.toList) (hfirst : ',' ∉ first) :
    fields (name.toList ++ ' ' :: (first ++ ',' :: ' ' :: second)) = (name, first, second) := by
  simp only [fields, cut_append hname, cut_append hfirst, String.ofList_toList, List.tail_cons]

end Fields

/-! ### Operands -/

/-- A number behind `0x`. -/
def number (field : List Char) : Nat := Hex.value (field.drop 2)

/-- A register behind `V`. -/
def register (field : List Char) : UInt8 := (Hex.value (field.drop 1)).toUInt8

/-- The right side of a comparison. -/
def operand (field : List Char) : Operand :=
  if field.head? = some 'V' then .register (register field) else .byte (number field).toUInt8

theorem number_text {letters : Hex.Letters} {least n : Nat} :
    number ("0x" ++ Hex.text letters least n).toList = n := by
  rw [number, String.toList_append]
  exact Hex.value_text

theorem number_address (a : UInt16) : (number (Disassembly.address a).toList).toUInt16 = a :=
  (congrArg Nat.toUInt16 number_text).trans UInt16.ofNat_toNat

theorem number_byte (b : UInt8) : (number (Disassembly.byte b).toList).toUInt8 = b :=
  (congrArg Nat.toUInt8 number_text).trans UInt8.ofNat_toNat

theorem number_opcode (op : Opcode) : Opcode.ofWord (number op.text.toList).toUInt16 = op := by
  have hword : (number op.text.toList).toUInt16 = op.word :=
    (congrArg Nat.toUInt16 number_text).trans UInt16.ofNat_toNat
  rw [hword, Opcode.ofWord_word]

theorem register_register (x : UInt8) : register (Disassembly.register x).toList = x := by
  have hvalue : Hex.value ((Disassembly.register x).toList.drop 1) = x.toNat := by
    rw [Disassembly.register, String.toList_append]
    exact Hex.value_text
  rw [register, hvalue]
  exact UInt8.ofNat_toNat

theorem operand_text (o : Operand) : operand o.text.toList = o := by
  cases o with
  | byte nn =>
    have hhead : (Disassembly.byte nn).toList.head? = some '0' := by
      rw [Disassembly.byte, String.toList_append]
      rfl
    rw [Operand.text, operand, hhead, if_neg (by decide), number_byte]
  | register y =>
    have hhead : (Disassembly.register y).toList.head? = some 'V' := by
      rw [Disassembly.register, String.toList_append]
      rfl
    rw [Operand.text, operand, hhead, if_pos rfl, register_register]

/-! ### Instructions -/

/-- The instruction of a name and its operands. -/
def named (name : String) (first second : List Char) : Instruction :=
  match name with
  | "CLS" => .clearScreen
  | "RET" => .ret
  | "SYS" => .system (number first).toUInt16
  | "JP" => .jump (number first).toUInt16
  | "CALL" => .call (number first).toUInt16
  | "SE" => .skip .equal (register first) (operand second)
  | "SNE" => .skip .unequal (register first) (operand second)
  | "LD" =>
    if first = ['I'] then .loadIndex (number second).toUInt16
    else .load (register first) (number second).toUInt8
  | "ADD" => .add (register first) (number second).toUInt8
  | _ => .unknown (Opcode.ofWord (number first).toUInt16)

/-- The instruction that a text shows. -/
def instruction (text : List Char) : Instruction :=
  named (fields text).1 (fields text).2.1 (fields text).2.2

/-- There is no mark in a number, nor in what stands before its digits. -/
theorem mark_not_mem {letters : Hex.Letters} {least n : Nat} {start : String}
    (hmark : mark ∈ [',', ':']) (hstart : mark ∉ start.toList) :
    mark ∉ (start ++ Hex.text letters least n).toList := by
  rw [String.toList_append, List.mem_append]
  rintro (hmem | hmem)
  · exact hstart hmem
  · exact Hex.not_mem_text hmark hmem

theorem comma_not_mem_address (a : UInt16) : ',' ∉ (Disassembly.address a).toList :=
  mark_not_mem (by decide) (by decide)

theorem comma_not_mem_register (x : UInt8) : ',' ∉ (Disassembly.register x).toList :=
  mark_not_mem (by decide) (by decide)

theorem comma_not_mem_opcode (op : Opcode) : ',' ∉ op.text.toList :=
  mark_not_mem (by decide) (by decide)

/-- No register is taken for `I`. -/
theorem register_ne_index (x : UInt8) : (Disassembly.register x).toList ≠ ['I'] := by
  rw [Disassembly.register, String.toList_append]
  exact fun h => absurd (List.head_eq_of_cons_eq h) (by decide)

/-! ### Texts -/

section Texts
variable (name : String) {start first second : String}

theorem instruction_name (hname : ' ' ∉ name.toList) :
    instruction name.toList = named name [] [] := by
  rw [instruction, fields_name hname]

theorem instruction_one (hstart : start.toList = name.toList ++ [' ']) (hname : ' ' ∉ name.toList)
    (hfirst : ',' ∉ first.toList) :
    instruction (start ++ first).toList = named name first.toList [] := by
  have htext : (start ++ first).toList = name.toList ++ ' ' :: first.toList := by
    rw [String.toList_append, hstart, List.append_assoc, List.singleton_append]
  rw [instruction, htext, fields_one hname hfirst]

theorem instruction_two (hstart : start.toList = name.toList ++ [' ']) (hname : ' ' ∉ name.toList)
    (hfirst : ',' ∉ first.toList) :
    instruction (start ++ first ++ ", " ++ second).toList =
      named name first.toList second.toList := by
  have hcomma : ", ".toList = [',', ' '] := rfl
  have htext : (start ++ first ++ ", " ++ second).toList =
      name.toList ++ ' ' :: (first.toList ++ ',' :: ' ' :: second.toList) := by
    simp only [String.toList_append, hstart, hcomma, List.append_assoc, List.cons_append,
      List.nil_append]
  rw [instruction, htext, fields_two hname hfirst]

end Texts

end Listing

namespace Instruction
open Listing

/-- **A text can be read back.** -/
theorem read_text (i : Instruction) : Listing.instruction i.text.toList = i := by
  cases i with
  | clearScreen => exact instruction_name "CLS" (by decide)
  | ret => exact instruction_name "RET" (by decide)
  | system a =>
    refine (instruction_one "SYS" rfl (by decide) (comma_not_mem_address a)).trans ?_
    exact congrArg system (number_address a)
  | jump a =>
    refine (instruction_one "JP" rfl (by decide) (comma_not_mem_address a)).trans ?_
    exact congrArg jump (number_address a)
  | call a =>
    refine (instruction_one "CALL" rfl (by decide) (comma_not_mem_address a)).trans ?_
    exact congrArg call (number_address a)
  | skip comparison x right =>
    cases comparison with
    | equal =>
      refine (instruction_two "SE" rfl (by decide) (comma_not_mem_register x)).trans ?_
      exact congrArg₂ (skip .equal) (register_register x) (operand_text right)
    | unequal =>
      refine (instruction_two "SNE" rfl (by decide) (comma_not_mem_register x)).trans ?_
      exact congrArg₂ (skip .unequal) (register_register x) (operand_text right)
  | load x nn =>
    refine (instruction_two "LD" rfl (by decide) (comma_not_mem_register x)).trans ?_
    refine (if_neg (register_ne_index x)).trans ?_
    exact congrArg₂ load (register_register x) (number_byte nn)
  | add x nn =>
    refine (instruction_two "ADD" rfl (by decide) (comma_not_mem_register x)).trans ?_
    exact congrArg₂ add (register_register x) (number_byte nn)
  | loadIndex a =>
    have hstart : "LD I, " = "LD " ++ "I" ++ ", " := rfl
    have hindex : "I".toList = ['I'] := rfl
    rw [text, hstart, instruction_two "LD" rfl (by decide) (by decide), hindex]
    exact congrArg loadIndex (number_address a)
  | unknown op =>
    refine (instruction_one "???" rfl (by decide) (comma_not_mem_opcode op)).trans ?_
    exact congrArg unknown (number_opcode op)

/-- A register that is none still has a text. -/
example : Listing.instruction "LD V1F, 0x0A".toList = .load 31 10 := by decide

/-- Instructions with one text are one. -/
theorem text_inj {i j : Instruction} (h : i.text = j.text) : i = j := by
  rw [← read_text i, ← read_text j, h]

end Instruction

/-! ### Lines -/

namespace Listing

/-- The instruction of a line; the address in front of it ends with a colon. -/
def line (text : String) : Instruction := instruction (cut ':' text.toList).2.tail

theorem line_executing (pc : UInt16) (i : Instruction) :
    line (Event.executing pc i).message = i := by
  have hcolon : ':' ∉ (Event.addressText pc).toList := mark_not_mem (by decide) (by decide)
  have hmessage : (Event.executing pc i).message = Event.addressText pc ++ ": " ++ i.text := rfl
  have hmark : ": ".toList = [':', ' '] := rfl
  rw [line, hmessage, String.toList_append, String.toList_append, hmark, List.append_assoc,
    List.cons_append, cut_append hcolon, List.singleton_append, List.tail_cons,
    Instruction.read_text]

end Listing

/-- An event of the most detailed level. -/
def Event.isTrace (e : Event) : Bool := e.level == .trace

/-- The texts of the most detailed events among some. -/
def Event.traces (events : List Event) : List String :=
  (events.filter Event.isTrace).map Event.message

namespace Log

def traces (log : Log) : List String := Event.traces log.events.toList

variable {log : Log}

theorem threshold_recordAll (log : Log) (events : List Event) :
    (log.recordAll events).threshold = log.threshold := by
  induction events generalizing log with
  | nil => rfl
  | cons event rest ih => exact (ih (log.record event)).trans (log.threshold_record event)

theorem traces_recordAll (h : log.threshold = some .trace) (events : List Event) :
    (log.recordAll events).traces = log.traces ++ Event.traces events := by
  have hall : log.admitted events = events :=
    List.filter_eq_self.mpr fun event _ => admits_of_trace h event.level
  rw [traces, toList_recordAll, hall, Event.traces, List.filter_append, List.map_append]
  rfl

end Log

/-! ### The instructions of a run -/

/-- The instruction that the next step is to execute, if there is one at the cursor. -/
def Machine.upcoming? (m : Machine) : Option Instruction :=
  match m.phase with
  | .ready memory => memory.opcode?.map Instruction.decode
  | _ => none

namespace Run

/-- The instruction that a turn of a run has executed with `m`, be it that it failed. -/
def executionOf (m : Machine) : Run → List Instruction
  | ended (.ok _) _ => []
  | _ => m.upcoming?.toList

/-- The instructions that so many turns execute, in order, the one that fails with them. -/
def executions : List Bool → Run → List Instruction
  | [], _ => []
  | _ :: _, ended _ _ => []
  | asked :: rest, going steps m =>
    let m := if asked then m.cancel else m
    let next := turn (going steps m)
    executionOf m next ++ executions rest next

/-- The instructions that so many turns execute without a fault, in order. -/
def completed (requests : List Bool) (r : Run) : List Instruction :=
  (r.results requests).filterMap Except.toOption

end Run

theorem Instruction.traces_report (pc : UInt16) (i : Instruction) :
    Event.traces (i.report pc) = [(Event.executing pc i).message] := by
  cases i <;> rfl

namespace Machine

/-- A step has one line, and that is the instruction which it executes. -/
theorem traces_report (m : Machine) :
    (Event.traces m.report).map Listing.line = m.upcoming?.toList := by
  unfold report upcoming?
  cases m.phase with
  | ready memory =>
    show (Event.traces memory.report).map _ = (memory.opcode?.map _).toList
    cases hop : memory.opcode? with
    | none =>
      rw [Memory.report_of_none hop]
      rfl
    | some op =>
      rw [Memory.report_of_some hop, Instruction.traces_report]
      exact congrArg (· :: []) (Listing.line_executing _ _)
  | _ => rfl

end Machine

namespace Run

variable {r : Run} {m : Machine}

/-- What a turn reports, and what of it is to be read as an instruction. -/
theorem turn_reports (steps : Nat) (m : Machine) :
    ∃ events, (turn (going steps m)).machine.host.log = m.host.log.recordAll events ∧
      (Event.traces events).map Listing.line = executionOf m (turn (going steps m)) := by
  obtain ⟨_, hturn⟩ | ⟨limit, _, _, _, hturn⟩ | ⟨_, _, hturn⟩ := turn_cases steps m
  · rw [hturn]
    exact ⟨[.cancelled steps], rfl, rfl⟩
  · rw [hturn]
    exact ⟨[.limitReached limit], rfl, rfl⟩
  · refine ⟨m.report, ?_, ?_⟩
    · rw [hturn, Machine.log_advance]
    · rw [hturn, m.traces_report, advance]
      cases m.step <;> rfl

theorem traces_under (h : r.machine.host.log.threshold = some .trace) (requests : List Bool) :
    ∃ lines, (r.under requests).machine.host.log.traces = r.machine.host.log.traces ++ lines ∧
      lines.map Listing.line = r.executions requests := by
  induction requests generalizing r with
  | nil => exact ⟨[], (List.append_nil _).symm, rfl⟩
  | cons asked rest ih =>
    cases r with
    | ended result m => exact ⟨[], (List.append_nil _).symm, rfl⟩
    | going steps m =>
      set n := if asked then m.cancel else m with hn
      have hlog : n.host.log = m.host.log := by
        rw [hn]
        cases asked <;> rfl
      obtain ⟨events, hevents, hread⟩ := turn_reports steps n
      have hthreshold : n.host.log.threshold = some .trace := by rwa [hlog]
      obtain ⟨lines, hlines, hrest⟩ := ih (r := turn (going steps n)) (by
        rw [hevents, Log.threshold_recordAll, hthreshold])
      refine ⟨Event.traces events ++ lines, ?_, ?_⟩
      · rw [hevents, Log.traces_recordAll hthreshold, hlog, List.append_assoc] at hlines
        exact hlines
      · rw [List.map_append, hread, hrest]
        rfl

end Run

/-! ### Instructions that fail -/

/-- The fault is that of an instruction, and not of the lack of one. -/
def Fault.isRefusal : Fault → Bool
  | badAddress _ | stackOverflow _ | display _ => true
  | _ => false

theorem Instruction.isRefusal_of_obstacle {i : Instruction} {reply : Reply} {s : Core} {e : Fault}
    (h : i.obstacle reply s = some e) : e.isRefusal = true := by
  cases i with
  | clearScreen =>
    obtain ⟨cause, _, rfl⟩ := Option.map_eq_some_iff.mp h
    rfl
  | ret =>
    obtain ⟨back, _, _, _, rfl⟩ := obstacle_ret_iff.mp h
    rfl
  | call target =>
    obtain ⟨_, rfl⟩ := obstacle_call_iff.mp h
    rfl
  | skip comparison x right =>
    obtain ⟨_, _, rfl⟩ := obstacle_skip_iff.mp h
    rfl
  | system target | jump target | load x nn | add x nn | loadIndex a | unknown op => cases h

namespace Machine

variable {m m' : Machine} {i : Instruction} {e : Fault}

theorem upcoming?_of_ready {memory : Memory} (h : m.phase = .ready memory) :
    m.upcoming? = memory.opcode?.map Instruction.decode := by
  simp only [upcoming?, h]

/-- A step returns the instruction that it executes. -/
theorem upcoming?_of_ok (h : m.step = .ok i m') : m.upcoming? = some i := by
  obtain ⟨memory, b, hphase, hb, _⟩ := step_ok h
  rw [upcoming?_of_ready hphase]
  cases Board.outcome_of_step hb with
  | performed hop => exact congrArg _ hop

/-- A step that fails has executed an instruction if the fault is that of one. -/
theorem upcoming?_of_error (h : m.step = .error e m') : m.upcoming?.isSome = e.isRefusal := by
  cases hphase : m.phase with
  | unloaded memory =>
    cases (step_unloaded hphase).symm.trans h
    simp only [upcoming?, hphase]
    rfl
  | closed =>
    cases (step_closed hphase).symm.trans h
    simp only [upcoming?, hphase]
    rfl
  | ready memory =>
    obtain ⟨b, hb⟩ := (step_error_iff_board hphase).mp ⟨m', h⟩
    rw [upcoming?_of_ready hphase]
    cases Board.outcome_of_step hb with
    | unfetched hop => exact congrArg (fun op? => (op?.map Instruction.decode).isSome) hop
    | refused hop he =>
      rw [Instruction.isRefusal_of_obstacle he]
      exact congrArg (fun op? => (op?.map Instruction.decode).isSome) hop

end Machine

namespace Run

/-- The run has ended with an instruction that failed. -/
def isRefused (r : Run) : Bool :=
  match r.result? with
  | some (.error e) => e.isRefusal
  | _ => false

theorem executions_ended (result : Except Fault Ending) (m : Machine) (requests : List Bool) :
    (ended result m).executions requests = [] := by
  cases requests <;> rfl

theorem results_ended (result : Except Fault Ending) (m : Machine) (requests : List Bool) :
    (ended result m).results requests = [] := by
  cases requests <;> rfl

/-- All that a run executes succeeds, but for the last instruction if the run ends with it. -/
theorem executions_going (steps : Nat) (m : Machine) (requests : List Bool) :
    ∃ failed : Option Instruction,
      (going steps m).executions requests = (going steps m).completed requests ++ failed.toList ∧
        failed.isSome = ((going steps m).under requests).isRefused := by
  induction requests generalizing steps m with
  | nil => exact ⟨none, rfl, rfl⟩
  | cons asked rest ih =>
    rw [executions, completed, results, under]
    generalize (if asked then m.cancel else m) = n
    obtain ⟨_, hturn⟩ | ⟨limit, _, _, _, hturn⟩ | ⟨_, _, hturn⟩ := turn_cases steps n
    · rw [hturn, executions_ended, results_ended, Machine.under_ended]
      exact ⟨none, rfl, rfl⟩
    · rw [hturn, executions_ended, results_ended, Machine.under_ended]
      exact ⟨none, rfl, rfl⟩
    · rw [hturn, advance]
      cases hstep : n.step with
      | ok i n' =>
        obtain ⟨failed, hexecuted, hfailed⟩ := ih (steps + 1) n'
        refine ⟨failed, ?_, hfailed⟩
        simp only [executionOf, Machine.upcoming?_of_ok hstep, stepOf, hstep, hexecuted]
        rfl
      | error e n' =>
        refine ⟨n.upcoming?, ?_, ?_⟩
        · simp only [executionOf, stepOf, hstep, executions_ended, results_ended, List.append_nil]
          rfl
        · rw [Machine.under_ended]
          exact Machine.upcoming?_of_error hstep

theorem executions_start (m : Machine) (requests : List Bool) :
    ∃ failed : Option Instruction,
      (start m).executions requests = (start m).completed requests ++ failed.toList ∧
        failed.isSome = ((start m).under requests).isRefused := by
  unfold start
  split
  · rw [executions_ended, completed, results_ended, Machine.under_ended]
    exact ⟨none, rfl, rfl⟩
  · rw [executions_ended, completed, results_ended, Machine.under_ended]
    exact ⟨none, rfl, rfl⟩
  · exact executions_going _ _ _

end Run

/-! ### What a listing determines -/

namespace Machine

/-- What a run has written to a log that takes every line, as far as it shows instructions. -/
structure Traced (m : Machine) (requests : List Bool) (lines : List String) : Prop where
  threshold : m.host.log.threshold = some .trace
  lines : ((Run.start m).under requests).machine.host.log.traces = m.host.log.traces ++ lines

variable {m m' : Machine} {requests requests' : List Bool} {lines : List String}

/-- The instructions can be read line by line. -/
theorem Traced.read (h : m.Traced requests lines) :
    (Run.start m).executions requests = lines.map Listing.line := by
  have hstart : (Run.start m).machine.host.log.threshold = some .trace ∧
      (Run.start m).machine.host.log.traces = m.host.log.traces := by
    unfold Run.start
    cases m.phase with
    | ready memory =>
      refine ⟨(Log.threshold_record _ _).trans h.threshold, ?_⟩
      exact (Log.traces_recordAll h.threshold [_]).trans (List.append_nil _)
    | _ => exact ⟨h.threshold, rfl⟩
  obtain ⟨lines', hlines', hread⟩ := Run.traces_under hstart.1 requests
  rw [hstart.2, h.lines] at hlines'
  rw [← hread, List.append_cancel_left hlines']

/-- With the result of the run it is known which of them succeeded. -/
theorem completed_of_executions
    (h : (Run.start m).executions requests = (Run.start m').executions requests')
    (hresult : ((Run.start m).under requests).result? = ((Run.start m').under requests').result?) :
    (Run.start m).completed requests = (Run.start m').completed requests' := by
  obtain ⟨failed, hexecuted, hfailed⟩ := Run.executions_start m requests
  obtain ⟨failed', hexecuted', hfailed'⟩ := Run.executions_start m' requests'
  have hsome : failed.isSome = failed'.isSome := by
    rw [hfailed, hfailed', Run.isRefused, Run.isRefused, hresult]
  have hlength : failed.toList.length = failed'.toList.length := by
    cases failed <;> cases failed' <;> first | rfl | cases hsome
  rw [hexecuted, hexecuted'] at h
  exact List.append_inj_left' h hlength

end Machine

/-- **A listing determines the instructions.** No two instructions have one text, whatever their
fields, so the texts of two opcodes are equal exactly if the opcodes decode alike; and two runs
that write the same lines execute the same instructions, and complete the same if they have the
same result. -/
theorem listing_determines :
    Function.Injective Instruction.text ∧
      (∀ a b : Opcode, (Instruction.decode a).text = (Instruction.decode b).text ↔
        Instruction.decode a = Instruction.decode b) ∧
      ∀ (m m' : Machine) (requests requests' : List Bool) (lines : List String),
        m.Traced requests lines → m'.Traced requests' lines →
          (Run.start m).executions requests = (Run.start m').executions requests' ∧
            (((Run.start m).under requests).result? = ((Run.start m').under requests').result? →
              (Run.start m).completed requests = (Run.start m').completed requests') := by
  refine ⟨fun _ _ h => Instruction.text_inj h, fun a b => ?_, ?_⟩
  · exact ⟨Instruction.text_inj, congrArg Instruction.text⟩
  · intro m m' requests requests' lines h h'
    have hexecuted := h.read.trans h'.read.symm
    exact ⟨hexecuted, Machine.completed_of_executions hexecuted⟩

/-- A program that skips over its second word and clears the screen in vain; the last digit of its
first word says nothing. -/
def skipping (digit : UInt8) (limit : Option Nat) : Machine :=
  let host : Host :=
    { display := fun _ => { failure := some .noSuchDevice }, log := { threshold := some .trace } }
  (Machine.ofProgram [0x51, 0x20 + digit, 0x60, 0x01, 0x00, 0xE0] host).withSettings { limit }

/-- Two programs with one listing. -/
theorem skipping_alike :
    (Run.start (skipping 0 none)).executions [false, false, false] =
        (Run.start (skipping 15 (some 5))).executions [false, false] ∧
      (Run.start (skipping 0 none)).completed [false, false, false] =
        (Run.start (skipping 15 (some 5))).completed [false, false] := by
  have htraced : (skipping 0 none).Traced [false, false, false]
      ["0x200: SE V1, V2", "0x204: CLS"] := ⟨rfl, by decide +kernel⟩
  have htraced' : (skipping 15 (some 5)).Traced [false, false]
      ["0x200: SE V1, V2", "0x204: CLS"] := ⟨rfl, by decide +kernel⟩
  obtain ⟨hexecuted, hcompleted⟩ := listing_determines.2.2 _ _ _ _ _ htraced htraced'
  exact ⟨hexecuted, hcompleted (by decide +kernel)⟩

end Chip8
