import Mirros.Core.Pid
import Mirros.Lib.Run
import Mirros.Lib.Tickets
import Mirros.Theory.Pages.Boot

/-!
# Runs of the Pid Map

A session is the kernel together with a ledger of the pids that tasks hold: a
pid is entered when `get_new_pid` returns it and struck out when it is released.
After `get_new_pid` the caller stores the pid in the task, as `init_task_struct`
does; `release_pid` finds it there.

The pid map then is a dispenser of tickets. `get_new_pid` starts its search at
the cursor, the entry at the cursor is always empty, and the cursor moves by
one: so the pid is the number of pids handed out before (`getNewPid_eq`). The
entries below the cursor are the ledger, with zero for the pids that were given
back (`Tracks`). Giving back moves neither the cursor nor the counter of free
entries, so an entry is never used again.

## Main definitions

* `PidSession`, `PidCall`: The kernel with the ledger, and the calls.
* `Tracks`: The pid map agrees with the ledger.

## Theorems

* `getNewPid_eq`: The pid returned is the cursor.
* `tracks_get`, `tracks_release`: The calls draw and give back tickets.
* `tracks_run`: The invariant holds along every run.
* `pids_resolve`: Pids are unique and lead to their task.
* `pids_last`: When a pid is to be had.
* `pids_spent`: A pid that is given back is gone.
-/

namespace Mirros

/-- The kernel and the pids that are held. -/
structure PidSession where
  kernel : Kernel
  tickets : Tickets Nat

/-- A call of the pid allocator. -/
inductive PidCall where
  | get (t : Nat)
  | release (t : Nat)
  deriving DecidableEq, Repr

namespace PidSession

/-- Make a call. A pid that was got is stored in the task; `release_pid` returns
    zero. -/
def call (s : PidSession) : PidCall → Option (Int × PidSession)
  | .get t =>
      let (pid, k) := s.kernel.getNewPid t
      some (pid, ⟨k.setTask t { k.task t with pid := pid },
        if pid < 0 then s.tickets
        else ⟨(t, pid.toNat) :: s.tickets.held, s.tickets.drawn + 1⟩⟩)
  | .release t => do
      let k ← s.kernel.releasePid t
      return (0, ⟨k, s.tickets.giveBack t⟩)

/-- A task that gets a pid is not the null pointer and holds none, and one that
    releases its pid has one. -/
def Allowed (s : PidSession) (c : PidCall) (_ : Int) : Prop :=
  match c with
  | .get t => t ≠ 0 ∧ s.tickets.Free t
  | .release t => ¬s.tickets.Free t

instance (s : PidSession) (c : PidCall) (pid : Int) : Decidable (s.Allowed c pid) :=
  match c with
  | .get _ => inferInstanceAs (Decidable (_ ∧ _))
  | .release _ => inferInstanceAs (Decidable (¬_))

/-- Nobody holds a pid. -/
def start (k : Kernel) : PidSession :=
  ⟨k, ⟨[], 0⟩⟩

end PidSession

/-- The pid map agrees with the ledger. -/
structure Tracks (s : PidSession) : Prop where
  sound : s.tickets.Sound
  size : s.kernel.pidMap.nr = 1024
  free : s.kernel.pidMap.nrFree + s.kernel.pidMap.current = s.kernel.pidMap.nr
  cursor : s.kernel.pidMap.current = s.tickets.drawn
  fresh : ∀ i, s.kernel.pidMap.current ≤ i → i < s.kernel.pidMap.nr → s.kernel.pidMap.addr i = 0
  entry : ∀ t n, (t, n) ∈ s.tickets.held →
    t ≠ 0 ∧ s.kernel.pidMap.addr n = t ∧ (s.kernel.task t).pid = n
  vacant : ∀ i, i < s.kernel.pidMap.nr → s.kernel.pidMap.addr i ≠ 0 →
    (s.kernel.pidMap.addr i, i) ∈ s.tickets.held

/-- The entry at the cursor is empty, so the search ends there. -/
theorem getNewPid_eq (s : PidSession) (h : Tracks s) (t : Nat) :
    s.kernel.getNewPid t =
      if s.tickets.drawn < s.kernel.pidMap.nr then
        (↑s.tickets.drawn, s.kernel.setPidMap { s.kernel.pidMap with
          nrFree := s.kernel.pidMap.nrFree - 1
          current := s.kernel.pidMap.current + 1
          addr := Function.update s.kernel.pidMap.addr s.tickets.drawn t })
      else (-1, s.kernel) := by
  have hfree := h.free
  have hcursor := h.cursor
  unfold Kernel.getNewPid
  by_cases hlt : s.tickets.drawn < s.kernel.pidMap.nr
  · -- The search starts at the cursor, and the entry there is empty.
    have hne : s.kernel.pidMap.nrFree ≠ 0 := by omega
    rcases Nat.exists_eq_add_one_of_ne_zero (Nat.sub_ne_zero_of_lt hlt) with ⟨n, hrange⟩
    have hempty := h.fresh s.tickets.drawn (Nat.le_of_eq hcursor) hlt
    have hfind : (List.range' s.tickets.drawn (n + 1)).find?
        (fun i => decide (s.kernel.pidMap.addr i = 0)) = some s.tickets.drawn := by
      rw [List.range'_succ, List.find?_cons_of_pos]
      exact decide_eq_true hempty
    simp only [if_pos hlt, if_neg hne, hcursor, hrange, hfind]
    rfl
  · -- All numbers have been handed out, and the counter is zero.
    have hzero : s.kernel.pidMap.nrFree = 0 := by omega
    simp only [if_neg hlt, hzero, if_true]

section

variable (s s' : PidSession) (h : Tracks s) (t : Nat) (pid : Int)

include h

/-- `get_new_pid` draws a ticket. -/
theorem get_draws (hcall : s.call (.get t) = some (pid, s')) :
    (s.tickets.drawn < s.kernel.pidMap.nr ∧ pid = s.tickets.drawn ∨
      s.kernel.pidMap.nr ≤ s.tickets.drawn ∧ pid = -1) ∧
      s'.tickets = (s.tickets.draw s.kernel.pidMap.nr t).2 := by
  simp only [PidSession.call, Option.some.injEq, Prod.mk.injEq] at hcall
  rcases hcall with ⟨hpid, hs'⟩
  subst hs'
  rw [getNewPid_eq s h t] at hpid ⊢
  rcases Nat.lt_or_ge s.tickets.drawn s.kernel.pidMap.nr with hlt | hge
  · rw [if_pos hlt] at hpid
    rw [Tickets.draw_of_lt _ _ _ hlt, if_pos hlt]
    refine ⟨Or.inl ⟨hlt, hpid.symm⟩, ?_⟩
    -- The pid is the number of the ticket.
    rw [if_neg (by simp only []; omega), Int.toNat_natCast]
  · rw [if_neg (Nat.not_lt_of_le hge)] at hpid
    rw [Tickets.draw_of_le _ _ _ hge, if_neg (Nat.not_lt_of_le hge)]
    exact ⟨Or.inr ⟨hge, hpid.symm⟩, rfl⟩

/-- A task that holds no pid gets one, and the map still agrees with the ledger. -/
theorem tracks_get (ht : t ≠ 0) (hfree : s.tickets.Free t)
    (hcall : s.call (.get t) = some (pid, s')) : Tracks s' := by
  have hsound := Tickets.sound_draw s.kernel.pidMap.nr s.tickets t h.sound hfree
  rw [← (get_draws s s' h t pid hcall).2] at hsound
  simp only [PidSession.call, Option.some.injEq, Prod.mk.injEq] at hcall
  rcases hcall with ⟨_, hs'⟩
  -- The task is none of those that hold a pid, so their entries stay.
  have hother : ∀ u n, (u, n) ∈ s.tickets.held → u ≠ t := by
    rintro u n hu rfl
    exact hfree (List.mem_map.mpr ⟨(u, n), hu, rfl⟩)
  rw [getNewPid_eq s h t] at hs'
  rcases Nat.lt_or_ge s.tickets.drawn s.kernel.pidMap.nr with hlt | hge
  · rw [if_pos hlt, if_neg (by simp only []; omega), Int.toNat_natCast] at hs'
    subst hs'
    have hfree' := h.free
    have hcursor := h.cursor
    refine ⟨hsound, h.size, ?_, ?_, fun i hi hin => ?_, fun u n hu => ?_, fun i hi hne => ?_⟩
    · simp only [Kernel.setTask, Kernel.setPidMap]
      omega
    · simp only [Kernel.setTask, Kernel.setPidMap, hcursor]
    · simp only [Kernel.setTask, Kernel.setPidMap] at hi hin ⊢
      rw [Function.update_of_ne (by omega)]
      exact h.fresh i (by omega) hin
    · simp only [Kernel.setTask, Kernel.setPidMap]
      -- The new pid, or one that was held before.
      rcases List.mem_cons.mp hu with heq | hu
      · rw [Prod.mk.injEq] at heq
        rw [heq.1, heq.2, Function.update_self, Function.update_self]
        exact ⟨ht, rfl, rfl⟩
      · have hdrawn := h.sound.drawn _ hu
        rw [Function.update_of_ne (Nat.ne_of_lt hdrawn), Function.update_of_ne (hother u n hu)]
        exact h.entry u n hu
    · simp only [Kernel.setTask, Kernel.setPidMap] at hi hne ⊢
      by_cases heq : i = s.tickets.drawn
      · rw [heq, Function.update_self]
        exact List.mem_cons_self
      · rw [Function.update_of_ne heq] at hne ⊢
        exact List.mem_cons_of_mem _ (h.vacant i hi hne)
  · -- No pid was left: only the task has changed.
    rw [if_neg (Nat.not_lt_of_le hge), if_pos (show (-1 : Int) < 0 by decide)] at hs'
    subst hs'
    refine ⟨h.sound, h.size, h.free, h.cursor, h.fresh, fun u n hu => ?_, h.vacant⟩
    simp only [Kernel.setTask]
    rw [Function.update_of_ne (hother u n hu)]
    exact h.entry u n hu

/-- A task that holds a pid can release it: the entry of its pid is its own. -/
theorem tracks_release (hheld : ¬s.tickets.Free t) :
    ∃ s', s.call (.release t) = some (0, s') ∧ Tracks s' ∧ s'.tickets = s.tickets.giveBack t := by
  rcases List.mem_map.mp (not_not.mp hheld) with ⟨⟨u, n⟩, hmem, rfl⟩
  rcases h.entry u n hmem with ⟨hu, haddr, hpid⟩
  have hdrawn := h.sound.drawn _ hmem
  have hcursor := h.cursor
  have hfree := h.free
  have hrange : 0 ≤ (s.kernel.task u).pid ∧ (s.kernel.task u).pid < s.kernel.pidMap.nr := by
    rw [hpid]
    omega
  refine ⟨⟨s.kernel.setPidMap { s.kernel.pidMap with
      addr := Function.update s.kernel.pidMap.addr (s.kernel.task u).pid.toNat 0 },
    s.tickets.giveBack u⟩, ?_, ?_, rfl⟩
  · simp only [PidSession.call, Kernel.releasePid, if_pos hrange, Option.pure_def,
      Option.bind_eq_bind, Option.bind_some]
  · refine ⟨Tickets.sound_giveBack _ _ h.sound, h.size, hfree, hcursor, fun i hi hin => ?_,
      fun v m hv => ?_, fun i hi hne => ?_⟩
    · simp only [Kernel.setPidMap, hpid, Int.toNat_natCast] at hi ⊢
      rw [Function.update_of_ne (by omega)]
      exact h.fresh i hi hin
    · rw [Tickets.mem_giveBack] at hv
      -- Another holder has another pid.
      have hmn : m ≠ n := by
        rintro rfl
        exact hv.1 (Tickets.holder_unique _ h.sound v u m hv.2 hmem)
      simp only [Kernel.setPidMap, hpid, Int.toNat_natCast]
      rw [Function.update_of_ne hmn]
      exact h.entry v m hv.2
    · simp only [Kernel.setPidMap, hpid, Int.toNat_natCast] at hi hne ⊢
      by_cases hin : i = n
      · rw [hin, Function.update_self] at hne
        exact absurd rfl hne
      · rw [Function.update_of_ne hin] at hne ⊢
        have hheld := h.vacant i hi hne
        -- The holder is another task, as a task holds one pid.
        refine (Tickets.mem_giveBack _ _ _ _).mpr ⟨fun hc => ?_, hheld⟩
        rw [hc] at hheld
        exact hin (Tickets.ticket_unique _ h.sound u i n hheld hmem)

end

/-- After `init_pid_allocater` every entry is empty. -/
theorem tracks_start (k k₀ : Kernel) (hinit : k.initPidAllocater = some (0, k₀)) :
    Tracks (PidSession.start k₀) := by
  simp only [Kernel.initPidAllocater, Option.pure_def, Option.bind_eq_bind,
    Option.bind_eq_some_iff, Prod.exists] at hinit
  rcases hinit with ⟨addr, mm, _, hif⟩
  -- The page for the map may not be there.
  by_cases hnull : addr = 0
  · rw [if_pos hnull, Option.some.injEq, Prod.mk.injEq] at hif
    exact absurd hif.1 (by decide)
  · rw [if_neg hnull, Option.some.injEq, Prod.mk.injEq] at hif
    rw [← hif.2]
    -- The counter, the cursor and the size are set, and the entries are cleared.
    refine ⟨Tickets.sound_empty, rfl, rfl, rfl, fun i _ hi => if_pos hi, fun t n ht => ?_,
      fun i hi hne => ?_⟩
    · exact absurd ht List.not_mem_nil
    · exact absurd (if_pos hi) hne

/-- Every allowed call returns and keeps the agreement. -/
theorem tracks_call (s : PidSession) (h : Tracks s) (c : PidCall) (b : Int)
    (hc : s.Allowed c b) : ∃ a s', s.call c = some (a, s') ∧ Tracks s' := by
  cases c with
  | get t =>
      rcases hcall : s.call (.get t) with _ | ⟨a, s'⟩
      · exact absurd hcall (by simp only [PidSession.call, reduceCtorEq, not_false_eq_true])
      · exact ⟨a, s', rfl, tracks_get s s' h t a hc.1 hc.2 hcall⟩
  | release t =>
      rcases tracks_release s h t hc with ⟨s', hcall, h', _⟩
      exact ⟨0, s', hcall, h'⟩

theorem tracks_run (k k₀ : Kernel) (hinit : k.initPidAllocater = some (0, k₀)) (s : PidSession)
    (hrun : Run.Reaches PidSession.call PidSession.Allowed (PidSession.start k₀) s) :
    Tracks s := by
  refine Run.invariant_of_reaches PidSession.call PidSession.Allowed Tracks ?_ _ s hrun
    (tracks_start k k₀ hinit)
  intro s c a s' h hc hcall
  rcases tracks_call s h c a hc with ⟨a', s'', hcall', h'⟩
  rw [hcall', Option.some.injEq, Prod.mk.injEq] at hcall
  exact hcall.2 ▸ h'

/-- In every state of every run: `get_new_pid` returns -1 or a number that is an
    entry of the map, no pid is held twice, and a pid leads to the task that
    holds it or to the null pointer. -/
theorem pids_resolve (k k₀ : Kernel) (hinit : k.initPidAllocater = some (0, k₀)) (s : PidSession)
    (hrun : Run.Reaches PidSession.call PidSession.Allowed (PidSession.start k₀) s) :
    (∀ t pid s', s.Allowed (.get t) pid → s.call (.get t) = some (pid, s') →
        pid = -1 ∨ 0 ≤ pid ∧ pid < s.kernel.pidMap.nr) ∧
      (∀ t u n, (t, n) ∈ s.tickets.held → (u, n) ∈ s.tickets.held → t = u) ∧
      (∀ n : Nat, n < s.kernel.pidMap.nr →
        (∀ t, (t, n) ∈ s.tickets.held → s.kernel.pidGetTask n = some t) ∧
        ((∀ t, (t, n) ∉ s.tickets.held) → s.kernel.pidGetTask n = some 0)) ∧
      ∀ c, s.Allowed c 0 → ∃ pid s', s.call c = some (pid, s') := by
  have h := tracks_run k k₀ hinit s hrun
  refine ⟨fun t pid s' _ hcall => ?_, fun t u n => Tickets.holder_unique _ h.sound t u n,
    fun n hn => ?_, fun c hc => ?_⟩
  · rcases (get_draws s s' h t pid hcall).1 with ⟨hlt, rfl⟩ | ⟨_, rfl⟩
    · exact Or.inr ⟨by omega, by omega⟩
    · exact Or.inl rfl
  · -- A pid in the range is read from its entry.
    have hget : s.kernel.pidGetTask n = some (s.kernel.pidMap.addr n) := by
      unfold Kernel.pidGetTask
      rw [if_pos (by omega), if_pos (by omega), Int.toNat_natCast]
    rw [hget]
    refine ⟨fun t ht => by rw [(h.entry t n ht).2.1], fun hnone => ?_⟩
    -- An entry that is not zero belongs to the task it names.
    by_contra hne
    exact hnone _ (h.vacant n hn (fun hc => hne (by rw [hc])))
  · rcases tracks_call s h c 0 hc with ⟨pid, s', hcall, _⟩
    exact ⟨pid, s', hcall⟩

/-- The board when `init_pid_allocater` is called, with the first 64 pages in use. -/
def pidKernel : Kernel :=
  { slab := Slab.slabInit { Mm.boardBank with
      zone := fun z => match z with
        | .normal => { Mm.boardZone 256 0x30000000 0x80000000 with
            freePages := 192, bmEnd := 256, bmCurrent := 64 }
        | z => Mm.boardBank.zone z
      pageMap := fun w => if w < 2 then 0xffffffff#32 else 0#32
      mapWords := 16 } (fun _ => ⟨0, 0⟩)
    ram := fun _ => 0#8
    tlb := fun _ => 0
    pidMap := ⟨fun _ => 0, 0, 0, 0⟩
    task := fun _ =>
      { stackBase := 0
        stackOrigin := 0
        flag := processTypeKernel
        pid := 0
        uid := 0
        parent := 0
        child := []
        mm :=
          { elfSize := 0
            stackSize := 0
            stackCurr := none
            elfCurr := none
            stackList := []
            elfList := []
            elfImageList := []
            elfStackList := [] } }
    current := 0
    idle := 0 }

theorem pidKernel_init : ∃ k₀, pidKernel.initPidAllocater = some (0, k₀) := by
  have heval : pidKernel.initPidAllocater.map Prod.fst = some 0 := by decide +kernel
  rcases Option.map_eq_some_iff.mp heval with ⟨⟨ret, k₀⟩, hinit, rfl⟩
  exact ⟨k₀, hinit⟩

/-- Two tasks that get a pid each find each other through it. -/
theorem pids_resolve_two :
    ∃ (k₀ : Kernel) (s : PidSession), pidKernel.initPidAllocater = some (0, k₀) ∧
      s.tickets.held = [(0x200, 1), (0x100, 0)] ∧ s.kernel.pidMap.nr = 1024 ∧
      s.kernel.pidGetTask 1 = some 0x200 := by
  have heval : (pidKernel.initPidAllocater.bind fun x =>
      (Run.follow PidSession.call PidSession.Allowed (PidSession.start x.2)
        [.get 0x100, .get 0x200]).map fun s => (x.1, s.tickets.held, s.kernel.pidMap.nr))
      = some (0, [(0x200, 1), (0x100, 0)], 1024) := by decide +kernel
  rcases Option.bind_eq_some_iff.mp heval with ⟨⟨ret, k₀⟩, hinit, hmap⟩
  rcases Option.map_eq_some_iff.mp hmap with ⟨s, hfollow, hs⟩
  simp only [Prod.mk.injEq] at hs
  rcases hs with ⟨rfl, hheld, hnr⟩
  have hrun := Run.reaches_of_follow _ _ _ _ _ hfollow
  have hget := (pids_resolve pidKernel k₀ hinit s hrun).2.2.1 1 (by rw [hnr]; decide)
  exact ⟨k₀, s, hinit, hheld, hnr, hget.1 0x200 (by rw [hheld]; exact List.mem_cons_self)⟩

/-- In every state of every run: `get_new_pid` succeeds whenever a pid is not
    held if and only if, when a pid is not held, not all of them were handed
    out before. -/
theorem pids_last (k k₀ : Kernel) (hinit : k.initPidAllocater = some (0, k₀)) (s : PidSession)
    (hrun : Run.Reaches PidSession.call PidSession.Allowed (PidSession.start k₀) s)
    (t : Nat) (pid : Int) (s' : PidSession) (hcall : s.call (.get t) = some (pid, s')) :
    (s.tickets.held.length < s.kernel.pidMap.nr → pid ≠ -1) ↔
      (s.tickets.held.length < s.kernel.pidMap.nr → s.tickets.drawn < s.kernel.pidMap.nr) := by
  have h := tracks_run k k₀ hinit s hrun
  rcases (get_draws s s' h t pid hcall).1 with ⟨hlt, rfl⟩ | ⟨hge, rfl⟩
  · exact ⟨fun _ _ => hlt, fun _ _ => by omega⟩
  · exact ⟨fun hne hheld => absurd rfl (hne hheld), fun hlt hheld => by have := hlt hheld; omega⟩

/-- The first pid of all. -/
theorem pids_last_first :
    ∃ k₀ pid s', pidKernel.initPidAllocater = some (0, k₀) ∧
      (PidSession.start k₀).call (.get 0x100) = some (pid, s') ∧ pid ≠ -1 := by
  rcases pidKernel_init with ⟨k₀, hinit⟩
  have hpos : 0 < (PidSession.start k₀).kernel.pidMap.nr := by
    rw [(tracks_start pidKernel k₀ hinit).size]
    exact Nat.zero_lt_succ _
  refine ⟨k₀, _, _, hinit, rfl, ?_⟩
  exact (pids_last pidKernel k₀ hinit (PidSession.start k₀) Relation.ReflTransGen.refl 0x100 _ _
    rfl).mpr (fun _ => hpos) hpos

/-- A task that gets a pid and releases it over and over spends one pid each
    time, and no pid is held in the end. -/
theorem pids_spent (k k₀ : Kernel) (hinit : k.initPidAllocater = some (0, k₀)) (t : Nat)
    (ht : t ≠ 0) (n : Nat) (hn : n ≤ 1024) :
    ∃ s, Run.Reaches PidSession.call PidSession.Allowed (PidSession.start k₀) s ∧
      s.tickets.held = [] ∧ s.tickets.drawn = n := by
  induction n with
  | zero => exact ⟨PidSession.start k₀, Relation.ReflTransGen.refl, rfl, rfl⟩
  | succ n ih =>
      rcases ih (by omega) with ⟨s, hrun, hheld, hdrawn⟩
      have h := tracks_run k k₀ hinit s hrun
      have hfree : s.tickets.Free t := by
        unfold Tickets.Free
        rw [hheld]
        exact List.not_mem_nil
      rcases tracks_call s h (.get t) 0 ⟨ht, hfree⟩ with ⟨pid, s₁, hget, h₁⟩
      have htickets := (get_draws s s₁ h t pid hget).2
      rw [Tickets.draw_of_lt _ _ _ (by rw [hdrawn, h.size]; omega), hheld, hdrawn] at htickets
      have hheld₁ : ¬s₁.tickets.Free t := by
        unfold Tickets.Free
        rw [htickets]
        exact not_not.mpr List.mem_cons_self
      rcases tracks_release s₁ h₁ t hheld₁ with ⟨s₂, hrel, _, htickets₂⟩
      -- The pid is given back, and the count of those handed out stays.
      rw [htickets] at htickets₂
      refine ⟨s₂, (hrun.tail ⟨_, _, hget, ht, hfree⟩).tail ⟨_, _, hrel, hheld₁⟩, ?_, ?_⟩
      · rw [htickets₂]
        simp only [Tickets.giveBack, ne_eq, not_true_eq_false, decide_false, Bool.false_eq_true,
          not_false_eq_true, List.filter_cons_of_neg, List.filter_nil]
      · rw [htickets₂]
        rfl

/-- One task alone uses up the map, and then no pid is held and none is to be
    had. -/
theorem pids_last_fails :
    ∃ (k₀ : Kernel) (s s' : PidSession), pidKernel.initPidAllocater = some (0, k₀) ∧
      Run.Reaches PidSession.call PidSession.Allowed (PidSession.start k₀) s ∧
      s.tickets.held.length < s.kernel.pidMap.nr ∧ s.Allowed (.get 0x100) (-1) ∧
      s.call (.get 0x100) = some (-1, s') := by
  rcases pidKernel_init with ⟨k₀, hinit⟩
  rcases pids_spent pidKernel k₀ hinit 0x100 (by decide) 1024 (Nat.le_refl _)
    with ⟨s, hrun, hheld, hdrawn⟩
  have h := tracks_run pidKernel k₀ hinit s hrun
  -- The task has given back its last pid.
  have hfree : s.tickets.Free 0x100 := by
    unfold Tickets.Free
    rw [hheld]
    exact List.not_mem_nil
  rcases tracks_call s h (.get 0x100) 0 ⟨by decide, hfree⟩ with ⟨pid, s', hget, _⟩
  rcases (get_draws s s' h 0x100 pid hget).1 with ⟨hlt, _⟩ | ⟨_, rfl⟩
  · rw [hdrawn, h.size] at hlt
    exact absurd hlt (Nat.lt_irrefl _)
  · refine ⟨k₀, s, s', hinit, hrun, ?_, ⟨by decide, hfree⟩, hget⟩
    rw [hheld, h.size]
    exact Nat.zero_lt_succ _

end Mirros
