import Mirros.Core.Entry

/-!
# Contexts

What a task was doing when it was interrupted, and how it is saved on its kernel stack.

The mode tells where the stack pointer of a context is kept: in a word of its own for a user
task, and by the place of the saved context for one that is in the kernel.

## Main definitions

* `Context`: What the processor is doing.
* `Framed`: A saved context.
* `Returns`: What a function of the kernel leaves alone.

## Theorems

* `at_routines`: Where the routines are.
* `loadMany_lows`: Thirteen registers at once.
-/

namespace Mirros

open Modes

/-- What the processor is doing: the thirteen registers, those of the mode, the address of the
    next instruction, the status register, and the stack pointer of the kernel. -/
structure Context where
  low : List Word
  sp : Word
  lr : Word
  pc : Word
  psr : Psr
  top : Word

/-- The context of a state. -/
def contextOf (s : State) : Context :=
  { low := lows.map s.cpu.get
    sp := s.cpu.get .sp
    lr := s.cpu.get .lr
    pc := s.pc
    psr := s.cpu.cpsr
    top := s.cpu.reg (.svc, .sp) }

/-- The first thirteen registers are those of all modes. -/
theorem map_get_lows (s : Cpu) : lows.map s.get = lows.map (fun r => s.reg (.user, r)) := rfl

/-- Words from an address on. -/
def loadWords (mem : Word → Word) (a : Word) : Nat → List Word
  | 0 => []
  | n + 1 => mem a :: loadWords mem (a + 4) n

/-- A context that is saved from an address on: that of a user task, or of a task in the
    kernel, whose stack goes on behind it. -/
structure Framed (mem : Word → Word) (base : Word) (c : Context) : Prop where
  low : loadWords mem base 13 = c.low
  lr : mem (base + 56#32) = c.lr
  psr : mem (base + 64#32) = c.psr.word
  pc : mem (base + 68#32) = c.pc
  top : c.top = base + 72#32
  mode : c.psr.mode = userModeBits ∧ mem (base + 60#32) = c.sp ∨
    c.psr.mode = svcModeBits ∧ c.sp = c.top

/-- What a function of the kernel leaves alone: the mode and the masks, the stack pointers, the
    registers that a caller may rely on, and these words of memory. -/
structure Returns (keep : Word → Prop) (s t : Cpu) : Prop where
  control : t.cpsr.control = s.cpsr.control
  svcSp : t.reg (.svc, .sp) = s.reg (.svc, .sp)
  irqSp : t.reg (.irq, .sp) = s.reg (.irq, .sp)
  fp : t.reg (.user, .r11) = s.reg (.user, .r11)
  mem : ∀ a, keep a → t.mem a = s.mem a

/-- Two states but for the flags. -/
structure Flagged (s t : Cpu) : Prop where
  reg : t.reg = s.reg
  spsr : t.spsr = s.spsr
  mem : t.mem = s.mem
  control : t.cpsr.control = s.cpsr.control

/-- The mode is in the control bits. -/
theorem bank_of_control (s t : Cpu) (h : t.cpsr.control = s.cpsr.control) :
    t.cpsr.bank = s.cpsr.bank := by
  unfold Psr.bank Psr.mode
  rw [h]

@[simp] theorem bankOf_irq : bankOf irqModeBits = .irq := rfl

@[simp] theorem bankOf_svc : bankOf svcModeBits = .svc := rfl

@[simp] theorem bankOf_user : bankOf userModeBits = .user := rfl

@[simp] theorem bank_irq (f : BitVec 4) : Psr.bank ⟨f, irqModeBits ||| noInt⟩ = .irq := by
  unfold Psr.bank Psr.mode
  rw [show (irqModeBits ||| noInt) &&& 0x1f = irqModeBits from rfl]
  rfl

@[simp] theorem bank_svc (f : BitVec 4) : Psr.bank ⟨f, svcModeBits ||| noInt⟩ = .svc := by
  unfold Psr.bank Psr.mode
  rw [show (svcModeBits ||| noInt) &&& 0x1f = svcModeBits from rfl]
  rfl

@[simp] theorem bank_system (f : BitVec 4) : Psr.bank ⟨f, systemModeBits ||| noInt⟩ = .user := by
  unfold Psr.bank Psr.mode
  rw [show (systemModeBits ||| noInt) &&& 0x1f = systemModeBits from rfl]
  rfl

@[simp] theorem length_loadWords (mem : Word → Word) (a : Word) (n : Nat) :
    (loadWords mem a n).length = n := by
  induction n generalizing a with
  | zero => rfl
  | succ n ih => rw [loadWords, List.length_cons, ih]

theorem Framed.modes {mem : Word → Word} {base : Word} {c : Context} (h : Framed mem base c) :
    c.psr.mode = userModeBits ∨ c.psr.mode = svcModeBits :=
  h.mode.imp And.left And.left

/-- A saved context is in 18 words. -/
theorem Framed.congr {mem mem' : Word → Word} {base : Word} {c : Context} (h : Framed mem base c)
    (hsame : ∀ a, In base 72 a → mem' a = mem a) : Framed mem' base c := by
  have hat : ∀ d : Word, d.toNat < 72 → mem' (base + d) = mem (base + d) :=
    fun d hd => hsame _ (in_add base d 72 hd)
  have hat₀ := hat 0#32 (by decide)
  rw [BitVec.add_zero] at hat₀
  constructor
  case low =>
    rw [← h.low]
    simp [loadWords, add_add_lit, hat, hat₀]
  case lr => rw [hat _ (by decide), h.lr]
  case psr => rw [hat _ (by decide), h.psr]
  case pc => rw [hat _ (by decide), h.pc]
  case top => exact h.top
  case mode =>
    rw [hat _ (by decide)]
    exact h.mode

/-- A context with what is above the registers. -/
theorem framed_of_words (mem : Word → Word) (base spsr sp : Word) (c : Context)
    (hlow : c.low.length = 13)
    (hwords : loadWords mem base 18 = c.low ++ [spsr, c.lr, sp, c.psr.word, c.pc])
    (htop : c.top = base + 72#32)
    (hmode : c.psr.mode = userModeBits ∧ sp = c.sp ∨
      c.psr.mode = svcModeBits ∧ c.sp = c.top) :
    Framed mem base c ∧ mem (base + 52#32) = spsr := by
  have hsplit : loadWords mem base 18 = loadWords mem base 13 ++
      [mem (base + 52#32), mem (base + 56#32), mem (base + 60#32), mem (base + 64#32),
        mem (base + 68#32)] := by
    simp [loadWords, add_add_lit]
  rw [hsplit] at hwords
  obtain ⟨hfirst, hrest⟩ := List.append_inj hwords (by rw [length_loadWords, hlow])
  simp only [List.cons.injEq, and_true] at hrest
  obtain ⟨hspsr, hlr, hsp, hpsr, hpc⟩ := hrest
  exact ⟨⟨hfirst, hlr, hpsr, hpc, htop, hmode.imp (fun h => ⟨h.1, hsp.trans h.2⟩) id⟩, hspsr⟩

/-- A status register that code loads has no flags. -/
@[simp] theorem ofWord_svc :
    Psr.ofWord (svcModeBits.setWidth 32 ||| noInt.setWidth 32) = ⟨0, svcModeBits ||| noInt⟩ := by
  decide

@[simp] theorem ofWord_system :
    Psr.ofWord (systemModeBits.setWidth 32 ||| noInt.setWidth 32) =
      ⟨0, systemModeBits ||| noInt⟩ := by
  decide

/-- Thirteen registers at once. -/
theorem loadMany_lows (s : Cpu) (a : Word) :
    lows.map (fun r => (loadMany s a lows).reg (.user, r)) = loadWords s.mem a 13 ∧
      (∀ k, k.2 = .sp ∨ k.2 = .lr → (loadMany s a lows).reg k = s.reg k) ∧
      (loadMany s a lows).cpsr = s.cpsr ∧ (loadMany s a lows).spsr = s.spsr ∧
      (loadMany s a lows).mem = s.mem := by
  refine ⟨by simp [lows, loadMany, loadWords, Cpu.set, slot], ?_, ?_, ?_, ?_⟩
  · rintro ⟨b, r⟩ (hr | hr) <;> simp only at hr <;> subst hr <;>
      simp [lows, loadMany, Cpu.set, slot]
  all_goals simp [lows, loadMany, Cpu.set, slot]

theorem Symbols.loc_succ (x : Symbols) (i : Nat) : x.loc i + 4 = x.loc (i + 1) := by
  unfold Symbols.loc
  rw [BitVec.add_assoc, Nat.mul_succ, BitVec.ofNat_add]
  rfl

section

variable (x : Symbols) (call : Word → Option (Cpu → Cpu))
  (apart : ∀ i < (entryCode x).length, call (x.loc i) = none)

/-- Where the routines are. -/
theorem at_routines : (x.program call apart).At 0 (irqCode x) ∧
    (x.program call apart).At userToIrq userToIrqCode ∧
    (x.program call apart).At svcToIrq svcToIrqCode ∧
    (x.program call apart).At exitIrqFromUser exitIrqFromUserCode ∧
    (x.program call apart).At exitIrqFromSvc exitIrqFromSvcCode ∧
    (x.program call apart).At osExitIrq (osExitIrqCode x) ∧
    (x.program call apart).At archSwitchTaskSw (archSwitchTaskSwCode x) ∧
    (x.program call apart).At swSwitchToUser swSwitchToUserCode ∧
    (x.program call apart).At swSwitchToSvc swSwitchToSvcCode ∧
    (x.program call apart).At softwareInterrupt (softwareInterruptCode x) ∧
    (x.program call apart).At syscallEntry (syscallEntryCode x) := by
  have h : (x.program call apart).At 0 (entryCode x) := List.prefix_rfl
  have hirq : (irqCode x).length = 46 := by
    simp only [irqCode, irqSave, irqRoom, irqMove, irqFill, irqMode, irqRestore,
      List.length_append, List.length_cons, List.length_nil, Nat.reduceAdd]
  have hos : (osExitIrqCode x).length = 25 := by
    simp only [osExitIrqCode, List.length_cons, List.length_nil, Nat.reduceAdd]
  have hsw : (archSwitchTaskSwCode x).length = 34 := by
    simp only [archSwitchTaskSwCode, List.length_cons, List.length_nil, Nat.reduceAdd]
  have hswi : (softwareInterruptCode x).length = 32 := by
    simp only [softwareInterruptCode, List.length_cons, List.length_nil, Nat.reduceAdd]
  simp only [entryCode, Program.at_append, List.length_append, hirq, hos, hsw, hswi, and_assoc] at h
  exact h

/-- The parts of `irq`. -/
theorem at_irq : (x.program call apart).At 0 irqSave ∧
    (x.program call apart).At 11 [.bleq (x.loc userToIrq),
      .cmpImm .r0 (svcModeBits.setWidth 32), .bleq (x.loc svcToIrq)] ∧
    (x.program call apart).At 14 (irqRoom ++ irqMove ++ irqFill) ∧
    (x.program call apart).At 32 [.bl x.irqHandler, .bl (x.loc osExitIrq)] ∧
    (x.program call apart).At 34 irqMode ∧
    (x.program call apart).At 37 [.bleq (x.loc exitIrqFromUser),
      .cmpImm .r1 (svcModeBits.setWidth 32), .bleq (x.loc exitIrqFromSvc)] ∧
    (x.program call apart).At 40 irqRestore ∧ (x.program call apart).At 45 [.ldmPc .lr] := by
  have h := (at_routines x call apart).1
  have hsave : irqSave.length = 11 := rfl
  have hroom : irqRoom.length = 4 := rfl
  have hmove : irqMove.length = 6 := rfl
  have hfill : irqFill.length = 8 := rfl
  have hmode : irqMode.length = 3 := rfl
  have hrestore : irqRestore.length = 5 := rfl
  simp only [irqCode, Program.at_append, List.length_append, hsave, hroom, hmove, hfill, hmode,
    hrestore, List.length_cons, List.length_nil, Nat.reduceAdd, and_assoc] at h
  obtain ⟨h₀, h₁₁, h₁₄, h₁₈, h₂₄, h₃₂, h₃₄, h₃₇, h₄₀, h₄₅⟩ := h
  refine ⟨h₀, h₁₁, ?_, h₃₂, h₃₄, h₃₇, h₄₀, h₄₅⟩
  rw [Program.at_append, Program.at_append, List.length_append, hroom, hmove]
  exact ⟨⟨h₁₄, h₁₈⟩, h₂₄⟩

variable {x call apart}

/-- A block of instructions of a routine. -/
theorem part_runs (i j l m : Nat) (is js : List Instr) (s t : Cpu)
    (h : (x.program call apart).At i is) (hl : i + j = l) (hm : l + js.length = m)
    (hjs : js <+: is.drop j) (hexec : execAll (some s) js = some t) :
    Reaches (x.program call apart) ⟨s, x.loc l⟩ ⟨t, x.loc m⟩ := by
  have hgo := reaches_part (x.program call apart) i j is js s t h hjs hexec
  rw [hl, hm] at hgo
  exact hgo

/-- A comparison, after which only the flags are others. -/
theorem cmp_runs (i j l : Nat) (r : Reg) (imm : Word) (is : List Instr) (s : Cpu) (b : Bool)
    (h : (x.program call apart).At i is) (hl : i + j = l) (hins : is[j]? = some (.cmpImm r imm))
    (hb : decide (s.get r = imm) = b) :
    ∃ t, Reaches (x.program call apart) ⟨s, x.loc l⟩ ⟨t, x.loc (l + 1)⟩ ∧
      t.cpsr.zero = b ∧ Flagged s t := by
  subst hl
  have hcode := (x.program call apart).at_get i j is _ h hins
  refine ⟨s.setPsr ⟨nzcv (s.get r) imm, s.cpsr.control⟩, Relation.ReflTransGen.single
    (step_exec (x.program call apart) s _ (i + j) _ hcode rfl), ?_, rfl, rfl, rfl, rfl⟩
  rw [Cpu.setPsr_cpsr, nzcv_zero, hb]

/-- A routine of the same file is called, ... -/
theorem bleq_runs (i j l f : Nat) (is : List Instr) (s : Cpu)
    (h : (x.program call apart).At i is) (hl : i + j = l)
    (hins : is[j]? = some (.bleq (x.loc f))) (hzero : s.cpsr.zero = true) :
    Reaches (x.program call apart) ⟨s, x.loc l⟩
      ⟨s.setReg (s.cpsr.bank, .lr) (x.loc (l + 1)), x.loc f⟩ := by
  subst hl
  refine reaches_jump (x.program call apart) i j is _ s _ h hins ?_
  rw [branch_bleq _ _ hzero, ← Symbols.loc_succ]
  rfl

/-- ... or not, ... -/
theorem skip_runs (i j l f : Nat) (is : List Instr) (s : Cpu)
    (h : (x.program call apart).At i is) (hl : i + j = l)
    (hins : is[j]? = some (.bleq (x.loc f))) (hzero : s.cpsr.zero = false) :
    Reaches (x.program call apart) ⟨s, x.loc l⟩ ⟨s, x.loc (l + 1)⟩ := by
  subst hl
  refine reaches_jump (x.program call apart) i j is _ s _ h hins ?_
  rw [branch_bleq_skip _ _ hzero, ← Symbols.loc_succ]
  rfl

theorem beq_runs (i j l f : Nat) (is : List Instr) (s : Cpu)
    (h : (x.program call apart).At i is) (hl : i + j = l)
    (hins : is[j]? = some (.beq (x.loc f))) (hzero : s.cpsr.zero = true) :
    Reaches (x.program call apart) ⟨s, x.loc l⟩ ⟨s, x.loc f⟩ := by
  subst hl
  exact reaches_jump (x.program call apart) i j is _ s _ h hins (branch_beq _ _ hzero)

theorem beq_skip_runs (i j l f : Nat) (is : List Instr) (s : Cpu)
    (h : (x.program call apart).At i is) (hl : i + j = l)
    (hins : is[j]? = some (.beq (x.loc f))) (hzero : s.cpsr.zero = false) :
    Reaches (x.program call apart) ⟨s, x.loc l⟩ ⟨s, x.loc (l + 1)⟩ := by
  subst hl
  refine reaches_jump (x.program call apart) i j is _ s _ h hins ?_
  rw [branch_beq_skip _ _ hzero, ← Symbols.loc_succ]
  rfl

theorem bl_runs (i j l : Nat) (a : Word) (is : List Instr) (s : Cpu)
    (h : (x.program call apart).At i is) (hl : i + j = l) (hins : is[j]? = some (.bl a)) :
    Reaches (x.program call apart) ⟨s, x.loc l⟩
      ⟨s.setReg (s.cpsr.bank, .lr) (x.loc (l + 1)), a⟩ := by
  subst hl
  refine reaches_jump (x.program call apart) i j is _ s _ h hins ?_
  rw [← Symbols.loc_succ]
  rfl

theorem link_runs (i j l : Nat) (is : List Instr) (s : Cpu) (h : (x.program call apart).At i is)
    (hl : i + j = l) (hins : is[j]? = some .movLrPc) :
    Reaches (x.program call apart) ⟨s, x.loc l⟩
      ⟨s.setReg (s.cpsr.bank, .lr) (x.loc (l + 2)), x.loc (l + 1)⟩ := by
  subst hl
  refine reaches_jump (x.program call apart) i j is _ s _ h hins ?_
  have hnext : x.loc (i + j) + 8 = x.loc (i + j + 2) := by
    rw [← x.loc_succ (i + j + 1), ← x.loc_succ (i + j), add_add_lit]
    rfl
  rw [← hnext, ← x.loc_succ (i + j)]
  rfl

/-- ... and returns. -/
theorem return_runs (i j l : Nat) (a : Word) (r : Reg) (is : List Instr) (s : Cpu)
    (h : (x.program call apart).At i is) (hl : i + j = l) (hins : is[j]? = some (.movPc r))
    (ha : s.get r = a) : Reaches (x.program call apart) ⟨s, x.loc l⟩ ⟨s, a⟩ := by
  subst hl
  subst ha
  exact reaches_jump (x.program call apart) i j is _ s _ h hins rfl

/-- The instruction that goes back. -/
theorem leaves_runs (i j l : Nat) (r : Reg) (a : Word) (is : List Instr) (s : State) (t : Cpu)
    (h : (x.program call apart).At i is) (hl : i + j = l) (hins : is[j]? = some (.ldmPc r))
    (hgo : Reaches (x.program call apart) s ⟨t, x.loc l⟩) (hbank : t.cpsr.bank ≠ .user)
    (ha : t.get r = a) (hal : Aligned a) :
    Leaves (x.program call apart) s
      ⟨(t.set r (a + 4)).setPsr (t.spsr t.cpsr.bank), t.mem a⟩ := by
  subst hl ha
  have hcode := (x.program call apart).at_get i j is _ h hins
  rcases fetch_loc (x.program call apart) (i + j) (List.getElem?_eq_some_iff.mp hcode).1 with
    ⟨hcall, hfetch⟩
  rw [hcode] at hfetch
  refine ⟨_, r, hgo, hcall, hfetch, ?_⟩
  unfold State.leave
  exact if_neg (not_or.mpr ⟨hbank, not_not.mpr hal⟩)

end

/-- A kernel with its code from 0 on. -/
def lowSymbols : Symbols where
  org := 0
  irqHandler := 0x1000
  switchTask := 0x1004
  current := 0x2000
  nextRun := 0x2004
  syscallTableBase := 0x2008
  defaultSyscallHandler := 0x1008

theorem lowSymbols_loc (i : Nat) (hi : i < 210) (a : Word) (ha : 840 ≤ a.toNat) :
    lowSymbols.loc i ≠ a := by
  intro heq
  have hnat := congrArg BitVec.toNat heq
  unfold Symbols.loc at hnat
  rw [show lowSymbols.org = 0 from rfl, BitVec.toNat_add, BitVec.toNat_ofNat,
    show (0 : Word).toNat = 0 from rfl] at hnat
  omega

theorem lowSymbols_linked : lowSymbols.Linked where
  irqHandler i hi := lowSymbols_loc i hi _ (by decide)
  switchTask i hi := lowSymbols_loc i hi _ (by decide)
  other := by decide
  current := by decide
  nextRun := by decide

end Mirros
