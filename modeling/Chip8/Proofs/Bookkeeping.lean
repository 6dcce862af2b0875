import Chip8.Proofs.Trace

/-! Registers and call stacks in anybody's hands.

Whatever is asked of new registers, each of them is what was set last and what was added since,
and knows nothing of the others; what is asked of a register that does not exist is refused. Asked
directly they hold what they would hold after the instructions that do the same, so it is read off
as off a trace (`Trace.register`).

Whatever is asked of a new call stack, it holds the pushes that no pop has matched, and only how
many these are decides what is refused. Which pop matches which push is told by counting
(`unmatched`, `unpopped`), without a stack. -/
namespace Chip8

/-! ### Registers -/

namespace Registers

/-- What can be asked of registers. -/
inductive Request where
  | set (index value : UInt8)
  | add (index delta : UInt8)
  | setI (addr : UInt16)
  deriving DecidableEq, Repr

namespace Request

/-- The register that is meant. -/
def index? : Request → Option UInt8
  | set index _ | add index _ => some index
  | setI _ => none

/-- What a request leaves in its register. -/
def leaves (old : UInt8) : Request → UInt8
  | set _ value => value
  | add _ delta => old + delta
  | setI _ => old

/-- The instruction that does the same. -/
def instruction : Request → Instruction
  | set index value => .load index value
  | add index delta => .add index delta
  | setI addr => .loadIndex addr

end Request

def serve (r : Registers) : Request → Except Fault Registers
  | .set index value => r.set index value
  | .add index delta => r.add index delta
  | .setI addr => .ok (r.setI addr)

/-- The registers after a request, which are as they were if the request is refused. -/
def after (r : Registers) (q : Request) : Registers :=
  match r.serve q with
  | .ok next => next
  | .error _ => r

def afterAll (r : Registers) (requests : List Request) : Registers := requests.foldl after r

variable (r : Registers) (q : Request) (requests : List Request)

theorem get_ok {index : UInt8} (h : index.toNat < 16) :
    r.get index = .ok r.v[index.toNat] :=
  dif_pos h

theorem get_error {index : UInt8} (h : 16 ≤ index.toNat) :
    r.get index = .error (.badRegister index) :=
  dif_neg (Nat.not_lt_of_le h)

/-- A request for a register leaves its value there, if there is such a register. -/
theorem serve_index {q : Request} {index : UInt8} (hq : q.index? = some index) :
    r.serve q =
      if h : index.toNat < 16 then
        .ok { r with v := r.v.set index.toNat (q.leaves r.v[index.toNat]) }
      else .error (.badRegister index) := by
  cases q with
  | set index' value =>
    cases hq
    rfl
  | add index' delta =>
    cases hq
    rw [serve, add]
    by_cases h : index.toNat < 16
    · rw [get_ok r h, dif_pos h]
      exact dif_pos h
    · rw [get_error r (Nat.le_of_not_lt h), dif_neg h]
      rfl
  | setI addr => cases hq

/-- A request is refused exactly if it means a register that does not exist. -/
theorem serve_error_iff {e : Fault} :
    r.serve q = .error e ↔
      ∃ index, q.index? = some index ∧ 16 ≤ index.toNat ∧ e = .badRegister index := by
  cases hq : q.index? with
  | none =>
    cases q with
    | setI addr => simp [serve]
    | set index value | add index delta => cases hq
  | some index =>
    rw [serve_index r hq]
    split
    case isTrue h => simp [Nat.not_le_of_lt h]
    case isFalse h => simp [Nat.le_of_not_lt h, eq_comm]

theorem v_after_index {q : Request} {index : UInt8} (hq : q.index? = some index) (x : Fin 16) :
    (r.after q).v.get x = if index.toNat = x then q.leaves (r.v.get x) else r.v.get x := by
  rw [after, serve_index r hq]
  by_cases h : index.toNat < 16
  · rw [dif_pos h]
    refine (Vector.getElem_set h x.isLt).trans ?_
    split
    case isTrue he =>
      simp only [he]
      rfl
    case isFalse => rfl
  · rw [dif_neg h, if_neg fun he : index.toNat = x => h (he ▸ x.isLt)]

/-- What a request makes of a register. -/
theorem v_after (x : Fin 16) :
    ((r.after q).v.get x).toNat = (q.instruction.loaded? x).getD
      (((r.v.get x).toNat + q.instruction.added x) % 256) := by
  have hsame : (r.v.get x).toNat = ((r.v.get x).toNat + 0) % 256 :=
    (Nat.mod_eq_of_lt (UInt8.toNat_lt _)).symm
  cases q with
  | set index value =>
    rw [v_after_index r rfl]
    simp only [Request.instruction, Instruction.loaded?, Instruction.added]
    split
    · rfl
    · exact hsame
  | add index delta =>
    rw [v_after_index r rfl]
    simp only [Request.instruction, Instruction.loaded?, Instruction.added]
    split
    · exact UInt8.toNat_add _ _
    · exact hsame
  | setI addr => exact hsame

/-- The address register keeps the low twelve bits of what it is given. -/
theorem i_after : (r.after q).i.toNat = (q.instruction.address?.map (· % 4096)).getD r.i.toNat := by
  cases hq : q.index? with
  | none =>
    cases q with
    | setI addr =>
      show (addr &&& 0x0FFF).toNat = addr.toNat % 4096
      rw [UInt16.toNat_and]
      exact Nat.and_two_pow_sub_one_eq_mod addr.toNat 12
    | set index value | add index delta => cases hq
  | some index =>
    have hi : (r.after q).i = r.i := by
      rw [after, serve_index r hq]
      by_cases h : index.toNat < 16
      · rw [dif_pos h]
      · rw [dif_neg h]
    rw [hi]
    cases q with
    | setI addr => cases hq
    | set index' value | add index' delta => rfl

/-- What requests make of new registers. -/
theorem v_afterAll (x : Fin 16) :
    ((afterAll {} requests).v.get x).toNat =
      Trace.register x (requests.map Request.instruction) := by
  induction requests using List.reverseRecOn with
  | nil => exact congrArg UInt8.toNat (Vector.getElem_replicate x.isLt)
  | append_singleton before q ih =>
    rw [afterAll, List.foldl_concat, ← afterAll, v_after, ih, List.map_append, List.map_singleton,
      Trace.register_snoc]

theorem i_afterAll :
    (afterAll {} requests).i.toNat = Trace.index (requests.map Request.instruction) % 4096 := by
  induction requests using List.reverseRecOn with
  | nil => rfl
  | append_singleton before q ih =>
    rw [afterAll, List.foldl_concat, ← afterAll, i_after, ih, List.map_append, List.map_singleton,
      Trace.index_snoc]
    cases q.instruction.address? <;> rfl

/-- A request for another register says nothing of this one. -/
theorem register_snoc_other {q : Request} {x : Fin 16}
    (h : ∀ index, q.index? = some index → index.toNat ≠ x) (T : List Instruction) :
    Trace.register x (T ++ [q.instruction]) = Trace.register x T := by
  have hmod : (Trace.register x T + 0) % 256 = Trace.register x T := Nat.mod_mod _ _
  rw [Trace.register_snoc]
  cases q with
  | set index value | add index delta =>
    simp only [Request.instruction, Instruction.loaded?, Instruction.added, if_neg (h index rfl)]
    exact hmod
  | setI addr => exact hmod

/-- Only what is asked of a register counts for it. -/
theorem register_filter {index : UInt8} (h : index.toNat < 16) :
    Trace.register ⟨index.toNat, h⟩ (requests.map Request.instruction) =
      Trace.register ⟨index.toNat, h⟩
        ((requests.filter (·.index? == some index)).map Request.instruction) := by
  induction requests using List.reverseRecOn with
  | nil => rfl
  | append_singleton before q ih =>
    rw [List.filter_append, List.map_append, List.map_singleton]
    by_cases hq : q.index? = some index
    · rw [List.filter_singleton, beq_iff_eq.mpr hq, cond_true, List.map_append, List.map_singleton,
        Trace.register_snoc, Trace.register_snoc, ih]
    · have hother (index' : UInt8) (hq' : q.index? = some index') : index'.toNat ≠ index.toNat :=
        fun he => hq (UInt8.toNat_inj.mp he ▸ hq')
      rw [register_snoc_other hother, ih, List.filter_singleton, beq_false_of_ne hq, cond_false,
        List.append_nil]

theorem eq_new_iff : r = {} ↔ (∀ index, index.toNat < 16 → r.get index = .ok 0) ∧ r.i = 0 := by
  constructor
  · rintro rfl
    refine ⟨fun index h => ?_, rfl⟩
    rw [get_ok _ h]
    exact congrArg Except.ok (Vector.getElem_replicate h)
  · rintro ⟨hget, hi⟩
    obtain ⟨v, i⟩ := r
    have hv (k : Nat) (hk : k < 16) : v[k] = 0 := by
      have hindex : k.toUInt8.toNat = k :=
        UInt8.toNat_ofNat_of_lt' (Nat.lt_trans hk (by decide))
      have hk' : k.toUInt8.toNat < 16 := hindex.symm ▸ hk
      have hzero := (get_ok ⟨v, i⟩ hk').symm.trans (hget k.toUInt8 hk')
      simpa only [hindex] using Except.ok.inj hzero
    have hzeros : v = Vector.replicate 16 0 :=
      Vector.ext fun k hk => (hv k hk).trans (Vector.getElem_replicate hk).symm
    rw [hzeros, show i = 0 from hi]

/-- What new registers have become of requests, and what they will make of the next. -/
structure Follows (requests : List Request) (r : Registers) : Prop where
  /-- A register is what was set last, or zero, and what was added since. -/
  get : ∀ index (h : index.toNat < 16), ∃ value, r.get index = .ok value ∧
    value.toNat = Trace.register ⟨index.toNat, h⟩ (requests.map Request.instruction)
  /-- There are no others. -/
  unread : ∀ index, 16 ≤ index.toNat → r.get index = .error (.badRegister index)
  index : r.i.toNat = Trace.index (requests.map Request.instruction) % 4096
  refused : ∀ q e, r.serve q = .error e ↔
    ∃ index, q.index? = some index ∧ 16 ≤ index.toNat ∧ e = .badRegister index
  unchanged : ∀ q e, r.serve q = .error e → r.after q = r
  /-- Whatever else was asked in between, a register is the same. -/
  independent : ∀ index others,
    others.filter (·.index? == some index) = requests.filter (·.index? == some index) →
    (afterAll {} others).get index = r.get index
  new : r = {} ↔ (∀ index, index.toNat < 16 → r.get index = .ok 0) ∧ r.i = 0

theorem follows_afterAll : Follows requests (afterAll {} requests) where
  get index h := ⟨_, get_ok _ h, v_afterAll requests ⟨index.toNat, h⟩⟩
  unread index h := get_error _ h
  index := i_afterAll requests
  refused q e := serve_error_iff _ q
  unchanged q e h := by rw [after, h]
  independent index others hsame := by
    by_cases h : index.toNat < 16
    · rw [get_ok _ h, get_ok _ h]
      refine congrArg Except.ok (UInt8.toNat_inj.mp ?_)
      refine (v_afterAll others ⟨index.toNat, h⟩).trans ?_
      rw [register_filter others h, hsame, ← register_filter requests h]
      exact (v_afterAll requests ⟨index.toNat, h⟩).symm
    · rw [get_error _ (Nat.le_of_not_lt h), get_error _ (Nat.le_of_not_lt h)]
  new := eq_new_iff _

end Registers

/-! ### Call stacks -/

namespace CallStack

/-- What can be asked of a call stack. -/
inductive Request where
  | push (addr : UInt16)
  | pop
  deriving DecidableEq, Repr

def Request.isPush : Request → Bool
  | push _ => true
  | pop => false

/-- The address that a request gets, if it gets one, and the stack that it leaves. -/
def serve (s : CallStack) : Request → Except Fault (Option UInt16 × CallStack)
  | .push addr => (s.push addr).map (none, ·)
  | .pop => .ok (s.top?, s.pop)

/-- The stack after a request, which is as it was if the request is refused. -/
def after (s : CallStack) (q : Request) : CallStack :=
  match s.serve q with
  | .ok (_, next) => next
  | .error _ => s

def afterAll (s : CallStack) (requests : List Request) : CallStack := requests.foldl after s

/-- A push succeeds that is not refused, and a pop that gets an address. -/
def succeeds (s : CallStack) : Request → Bool
  | .push addr => (s.push addr).isOk
  | .pop => s.top?.isSome

/-- Those of the requests that succeed, in order. -/
def successful (s : CallStack) : List Request → List Request
  | [] => []
  | q :: rest =>
    if s.succeeds q then q :: (s.after q).successful rest else (s.after q).successful rest

/-! #### Matching -/

/-- How many of the pops match no push among the requests, so that they get what was pushed
before. -/
def unmatched : List Request → Nat
  | [] => 0
  | .push _ :: later => unmatched later - 1
  | .pop :: later => unmatched later + 1

/-- The addresses of the pushes that no pop matches, the latest first. -/
def unpopped : List Request → List UInt16
  | [] => []
  | .push addr :: later => unpopped later ++ if unmatched later = 0 then [addr] else []
  | .pop :: later => unpopped later

/-- What is popped was pushed, here or before. -/
theorem length_unpopped (requests : List Request) :
    (unpopped requests).length + requests.count .pop =
      requests.countP Request.isPush + unmatched requests := by
  induction requests with
  | nil => rfl
  | cons q later ih =>
    cases q with
    | push addr =>
      have hne : Request.push addr ≠ .pop := nofun
      have hcount : (Request.push addr :: later).count .pop = later.count .pop :=
        List.count_cons_of_ne hne
      rw [unpopped, unmatched, hcount, List.countP_cons_of_pos rfl, List.length_append]
      split
      · rw [List.length_singleton]
        omega
      · rw [List.length_nil]
        omega
    | pop =>
      rw [unpopped, unmatched, List.count_cons_self, List.countP_cons_of_neg Bool.false_ne_true]
      omega

/-! #### One request -/

variable (s : CallStack) (requests : List Request)

theorem push_of_room (h : s.depth < limit) (addr : UInt16) :
    s.push addr = .ok ⟨addr :: s.frames⟩ :=
  if_pos h

theorem push_of_full (h : ¬ s.depth < limit) (addr : UInt16) :
    s.push addr = .error (.stackOverflow s.depth) :=
  if_neg h

/-- A request puts an address on the stack, takes one off it, or does nothing. -/
theorem after_cases (q : Request) :
    (∃ addr, q = .push addr ∧ s.depth < limit ∧ s.succeeds q = true ∧
      s.after q = ⟨addr :: s.frames⟩) ∨
    (∃ top below, q = .pop ∧ s.frames = top :: below ∧ s.succeeds q = true ∧ s.after q = ⟨below⟩) ∨
    s.succeeds q = false ∧ s.after q = s := by
  cases q with
  | push addr =>
    by_cases hroom : s.depth < limit
    · have hpush := push_of_room s hroom addr
      refine .inl ⟨addr, rfl, hroom, ?_, ?_⟩
      · rw [succeeds, hpush]
        rfl
      · rw [after, serve, hpush]
        rfl
    · have hpush := push_of_full s hroom addr
      refine .inr (.inr ⟨?_, ?_⟩)
      · rw [succeeds, hpush]
        rfl
      · rw [after, serve, hpush]
        rfl
  | pop =>
    obtain ⟨frames⟩ := s
    cases frames with
    | nil => exact .inr (.inr ⟨rfl, rfl⟩)
    | cons top below => exact .inr (.inl ⟨top, below, rfl, rfl, rfl, rfl⟩)

/-! #### Requests one after another -/

theorem successful_of_success {q : Request} (h : s.succeeds q = true) (rest : List Request) :
    s.successful (q :: rest) = q :: (s.after q).successful rest :=
  if_pos h

theorem successful_of_failure {q : Request} (h : s.succeeds q = false) (rest : List Request) :
    s.successful (q :: rest) = (s.after q).successful rest :=
  if_neg (Bool.eq_false_iff.mp h)

/-- **A stack holds what is not popped**, on top of what it held before and was not popped. -/
theorem frames_afterAll :
    (s.afterAll requests).frames =
      unpopped (s.successful requests) ++ s.frames.drop (unmatched (s.successful requests)) := by
  induction requests generalizing s with
  | nil => rfl
  | cons q rest ih =>
    rw [afterAll, List.foldl_cons, ← afterAll, ih]
    obtain ⟨addr, rfl, _, hsuccess, hafter⟩ | ⟨top, below, rfl, hframes, hsuccess, hafter⟩ |
      ⟨hfailure, hafter⟩ := after_cases s q
    · rw [successful_of_success s hsuccess, hafter, unpopped, unmatched]
      -- The address stays on the stack unless something later takes it off.
      cases unmatched (CallStack.successful ⟨addr :: s.frames⟩ rest) with
      | zero => simp
      | succ n => simp
    · rw [successful_of_success s hsuccess, hafter, unpopped, unmatched, hframes,
        List.drop_succ_cons]
    · rw [successful_of_failure s hfailure, hafter]

/-- No pop succeeds that gets neither what was pushed nor what was there. -/
theorem unmatched_le : unmatched (s.successful requests) ≤ s.depth := by
  induction requests generalizing s with
  | nil => exact Nat.zero_le _
  | cons q rest ih =>
    have hrest := ih (s.after q)
    obtain ⟨addr, rfl, _, hsuccess, hafter⟩ | ⟨top, below, rfl, hframes, hsuccess, hafter⟩ |
      ⟨hfailure, hafter⟩ := after_cases s q
    · rw [successful_of_success s hsuccess, unmatched]
      rw [hafter] at hrest ⊢
      exact Nat.sub_le_of_le_add hrest
    · rw [successful_of_success s hsuccess, unmatched, depth, hframes]
      rw [hafter] at hrest ⊢
      exact Nat.succ_le_succ hrest
    · rw [successful_of_failure s hfailure]
      rwa [hafter] at hrest ⊢

theorem depth_afterAll (h : s.depth ≤ limit) : (s.afterAll requests).depth ≤ limit := by
  induction requests generalizing s with
  | nil => exact h
  | cons q rest ih =>
    refine ih (s.after q) ?_
    obtain ⟨_, _, hroom, _, hafter⟩ | ⟨top, below, _, hframes, _, hafter⟩ | ⟨_, hafter⟩ :=
      after_cases s q
    · rw [hafter]
      exact hroom
    · rw [depth, hframes] at h
      rw [hafter]
      exact Nat.le_of_succ_le h
    · rwa [hafter]

theorem eq_new_iff : s = {} ↔ s.frames = [] := by
  obtain ⟨frames⟩ := s
  exact mk.injEq frames [] ▸ Iff.rfl

/-- What a new call stack has become of requests, and what it will make of the next. -/
structure Follows (requests : List Request) (s : CallStack) : Prop where
  /-- It holds what was pushed and not popped, the latest on top. -/
  frames : s.frames = unpopped (successful {} requests)
  /-- What can be seen of it is the latest of these; a pop gets the same and takes it off. -/
  peek : s.top? = (unpopped (successful {} requests)).head?
  pop : s.serve .pop = .ok (s.top?, ⟨s.frames.tail⟩)
  /-- There is nothing to see if as many pops have succeeded as pushes. -/
  empty : s.top? = none ↔
    (successful {} requests).countP Request.isPush = (successful {} requests).count .pop
  /-- A push is refused if fifteen addresses are not popped. -/
  refused : ∀ addr e, s.serve (.push addr) = .error e ↔
    (unpopped (successful {} requests)).length = 15 ∧ e = .stackOverflow 15
  unchanged : ∀ q e, s.serve q = .error e → s.after q = s
  new : s = {} ↔ unpopped (successful {} requests) = []

theorem serve_push_error_iff (h : s.depth ≤ limit) {addr : UInt16} {e : Fault} :
    s.serve (.push addr) = .error e ↔ s.depth = 15 ∧ e = .stackOverflow 15 := by
  by_cases hroom : s.depth < limit
  · rw [serve, push_of_room s hroom]
    exact iff_of_false nofun fun h => Nat.ne_of_lt hroom h.1
  · have hfull : s.depth = 15 := Nat.le_antisymm h (Nat.le_of_not_lt hroom)
    rw [serve, push_of_full s hroom, hfull]
    simp [Except.map, eq_comm]

theorem follows_afterAll : Follows requests (afterAll {} requests) := by
  have hunmatched : unmatched (successful {} requests) = 0 :=
    Nat.le_zero.mp (unmatched_le {} requests)
  have hframes : (afterAll {} requests).frames = unpopped (successful {} requests) := by
    rw [frames_afterAll, List.drop_nil, List.append_nil]
  have hcount := length_unpopped (successful {} requests)
  rw [hunmatched] at hcount
  refine
    { frames := hframes
      peek := congrArg List.head? hframes
      pop := rfl
      empty := ?_
      refused := fun addr e => ?_
      unchanged := fun q e h => by rw [after, h]
      new := ?_ }
  · rw [top?, List.head?_eq_none_iff, hframes, ← List.length_eq_zero_iff]
    omega
  · rw [serve_push_error_iff _ (depth_afterAll {} requests (Nat.zero_le _)), depth, hframes]
  · rw [← hframes, eq_new_iff]

end CallStack

/-- **Registers and call stacks are what was asked of them**, in whatever order and with whatever
was refused in between. -/
theorem registers_and_stack_follow (requests : List Registers.Request)
    (calls : List CallStack.Request) :
    Registers.Follows requests (Registers.afterAll {} requests) ∧
      CallStack.Follows calls (CallStack.afterAll {} calls) :=
  ⟨Registers.follows_afterAll requests, CallStack.follows_afterAll calls⟩

/-- A sum wraps and a register that does not exist counts for nothing; of the pops the first finds
nothing and the third matches the first push. -/
example :
    let requests : List Registers.Request :=
      [.add 3 9, .set 3 250, .add 3 4, .add 0x13 1, .setI 0xF234, .add 3 9]
    let calls : List CallStack.Request :=
      [.pop, .push 0x202, .push 0x304, .pop, .pop, .push 0x20E, .push 0x21C]
    Trace.register 3 (requests.map Registers.Request.instruction) = 7 ∧
      Trace.index (requests.map Registers.Request.instruction) % 4096 = 0x234 ∧
      (CallStack.successful {} calls).length = 6 ∧
      CallStack.unpopped (CallStack.successful {} calls) = [0x21C, 0x20E] := by
  decide +kernel

end Chip8
