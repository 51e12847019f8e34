import Mirros.Theory.Mutex.Kill

/-!
# Runs with Mutexes

A session is the scheduler with the mutexes that were initialised and the tasks that
are inside `mutex_lock_timeout`, each with the mutex and the time it asked for. Its
calls are those of the scheduler, the fork of a task, and the functions on mutexes.

`mutex_lock_timeout` gives up the processor with interrupts disabled, so a task that
gets it back goes on inside the function: while the current task is one of those that
wait, the only thing that can happen is that it resumes.

The invariant does not speak of the wait lists beyond the set their pointers stay in.
A time-out takes a node off a list that an unlock has taken it off before, and then
nothing more is true of them.

## Main definitions

* `MutexSession`, `MutexCall`, `MutexAnswer`: The calls and what they answer.
* `MutexInv`: The invariant of a run.

## Theorems

* `schedCall_calm`: What the calls of the scheduler leave alone.
* `mutexInv_call`, `mutexInv_run`: The invariant holds along every run.
-/

namespace Mirros

/-- What a call of the scheduler leaves alone when no task is forked or removed. -/
structure Calm (pub : List Nat) (s s' : Sched) : Prop where
  kept : Kept s.links s'.links
  idle : s'.idle = s.idle
  parent : ∀ u, (s'.task u).parent = (s.task u).parent
  asleep : ∀ u, (s'.task u).state = .sleep → (s.task u).state = .sleep ∨ s.Known pub u

theorem calm_refl (pub : List Nat) (s : Sched) : Calm pub s s :=
  ⟨kept_refl _, rfl, fun _ => rfl, fun _ h => Or.inl h⟩

theorem calm_trans (pub : List Nat) (s₁ s₂ s₃ : Sched) (h₁ : Calm pub s₁ s₂)
    (h₂ : Calm pub s₂ s₃) : Calm pub s₁ s₃ := by
  refine ⟨kept_trans _ _ _ h₁.kept h₂.kept, h₂.idle.trans h₁.idle,
    fun u => (h₂.parent u).trans (h₁.parent u), fun u hu => ?_⟩
  rcases h₂.asleep u hu with h | h
  · exact h₁.asleep u h
  · right
    unfold Sched.Known at h ⊢
    rw [← h₁.idle]
    exact h

theorem switchRecord_parent (s : Sched) (next u : Nat) :
    (switchRecord s next u).parent = (s.task u).parent := by
  unfold switchRecord
  split_ifs <;> rfl

theorem calm_switched (pub : List Nat) (s s' : Sched) (next : Nat) (h : Switched s s' next) :
    Calm pub s s' := by
  refine ⟨h.fixed.kept, h.fixed.idle, fun u => ?_, fun u hu => ?_⟩
  · rw [h.task, switchRecord_parent]
  · -- A switch puts nobody to sleep.
    rw [switched_state s s' next h] at hu
    split_ifs at hu
    · exact Or.inl hu
    · exact Or.inl hu

theorem calm_sched (pub : List Nat) (s s' : Sched) (hs : SchedOk s pub)
    (hcur : s.Known pub s.current ∨ (s.task s.current).state ≠ .running)
    (hrun : s.sched = some s') : Calm pub s s' := by
  rcases sched_spec s pub hs hcur with ⟨_, heq⟩ | ⟨k, next, heq, _, hsw, _⟩
  · rw [heq, Option.some.injEq] at hrun
    exact hrun ▸ calm_refl pub s
  · rw [heq, Option.some.injEq] at hrun
    exact hrun ▸ calm_switched pub s k next hsw

theorem calm_ticked (pub : List Nat) (s s' : Sched) (h : Ticked pub s s') : Calm pub s s' := by
  refine ⟨h.fixed.kept, h.fixed.idle, fun u => ?_, fun u hu => ?_⟩
  · by_cases huc : u = s.current
    · rcases h.self with ⟨r, hr, hself⟩
      rw [huc, hself, hr]
      split_ifs <;> rfl
    · rw [h.other u huc]
      split_ifs <;> rfl
  · rcases ticked_state pub s s' h u with he | ⟨_, he⟩
    · exact Or.inl (he ▸ hu)
    · rw [he] at hu
      cases hu

/-- The calls that neither fork nor remove a task. -/
def SchedCall.Plain : SchedCall → Prop
  | .fork _ _ _ _ => False
  | .remove _ => False
  | _ => True

instance (c : SchedCall) : Decidable c.Plain :=
  match c with
  | .fork _ _ _ _ => inferInstanceAs (Decidable False)
  | .remove _ => inferInstanceAs (Decidable False)
  | .sched => inferInstanceAs (Decidable True)
  | .tick => inferInstanceAs (Decidable True)
  | .suspend _ _ => inferInstanceAs (Decidable True)
  | .wakeup _ => inferInstanceAs (Decidable True)
  | .killSelf _ => inferInstanceAs (Decidable True)
  | .idlePrio => inferInstanceAs (Decidable True)

theorem schedCall_calm (s s' : SchedSession) (c : SchedCall) (h : SchedInv s)
    (hc : s.Allowed c ()) (hp : c.Plain) (hcall : s.call c = some ((), s')) :
    s'.published = s.published ∧ Calm s.published s.sched s'.sched := by
  have hmap : ∀ o : Option Sched,
      o.map (fun k => ((), (⟨k, s.published⟩ : SchedSession))) = some ((), s') →
      ∃ k, o = some k ∧ s' = ⟨k, s.published⟩ := by
    intro o ho
    rcases Option.map_eq_some_iff.mp ho with ⟨k, rfl, hk⟩
    exact ⟨k, rfl, (Prod.mk.inj hk).2.symm⟩
  -- The running task, when a first part of the call has left it as it is or has
  -- stopped it.
  have hrun : ∀ k k' : Sched, SchedOk k s.published → Fixed s.sched k →
      k.current = s.sched.current →
      ((k.task k.current).state = (s.sched.task k.current).state ∨
        (k.task k.current).state ≠ .running) → k.sched = some k' →
      Calm s.published k k' := by
    intro k k' hok hfix hcur hst hsched
    refine calm_sched s.published k k' hok ?_ hsched
    rw [known_of_fixed _ _ _ _ hfix]
    rcases hst with hst | hst
    · rw [hst, hcur]
      exact h.current
    · exact Or.inr hst
  cases c with
  | fork t pid flag parent => exact absurd hp id
  | remove t => exact absurd hp id
  | sched =>
      rcases hmap _ hcall with ⟨k, hk, rfl⟩
      exact ⟨rfl, calm_sched s.published _ k h.ok h.current hk⟩
  | tick =>
      rcases hmap _ hcall with ⟨k, hk, rfl⟩
      rcases osTickHandler_spec s.sched s.published h.ok with ⟨k1, hok, htick, heq⟩
      have hcalm := calm_ticked _ _ _ htick
      rw [heq] at hk
      split_ifs at hk with hrt
      · rcases switchTask_spec k1 s.published hok (ticked_current s.published _ k1 htick h.current)
          with ⟨k2, next, heq2, _, hsw, _⟩
        rw [heq2, Option.some.injEq] at hk
        exact ⟨rfl, calm_trans _ _ _ _ hcalm (hk ▸ calm_switched _ _ _ next hsw)⟩
      · rw [Option.some.injEq] at hk
        exact ⟨rfl, hk ▸ hcalm⟩
  | suspend t timeout =>
      rcases hmap _ hcall with ⟨k, hk, rfl⟩
      rcases suspendTaskTimeout_spec s.sched s.published t timeout h.ok hc with
        ⟨_, heq⟩ | ⟨k1, hok, hfix, hcur, _, _, _, _, htask, heq⟩
      · rw [heq, Option.some.injEq] at hk
        exact ⟨rfl, hk ▸ calm_refl _ _⟩
      · rw [heq] at hk
        refine ⟨rfl, calm_trans _ _ k1 _ ⟨hfix.kept, hfix.idle, fun u => ?_, fun u hu => ?_⟩
          (hrun k1 k hok hfix hcur ?_ hk)⟩
        · rw [htask, Function.update_apply]
          split_ifs with hut
          · rw [hut]
          · rfl
        · -- Only the task itself falls asleep.
          rw [htask, Function.update_apply] at hu
          split_ifs at hu with hut
          · exact Or.inr (hut ▸ hc)
          · exact Or.inl hu
        · rw [htask, Function.update_apply]
          split_ifs with hut
          · exact Or.inr (by simp only [ne_eq, reduceCtorEq, not_false_eq_true])
          · exact Or.inl rfl
  | wakeup t =>
      rw [SchedSession.call, Option.some.injEq, Prod.mk.injEq] at hcall
      rcases wakeupTask_spec s.sched s.published t h.ok hc with ⟨_, hfix, _, _, htask⟩
      rw [← hcall.2]
      refine ⟨rfl, hfix.kept, hfix.idle, fun u => ?_, fun u hu => ?_⟩
      · simp only [htask]
        split_ifs <;> rfl
      · simp only [htask] at hu
        split_ifs at hu
        exact Or.inl hu
  | killSelf t =>
      rcases hmap _ hcall with ⟨k, hk, rfl⟩
      rcases taskKillSelf_spec s.sched s.published t h.ok (Or.inl hc) (killer_known s h) with
        ⟨_, heq⟩ | ⟨k1, hok, hfix, hcur, _, _, heq, htask⟩
      · rw [heq, Option.some.injEq] at hk
        exact ⟨rfl, hk ▸ calm_refl _ _⟩
      · rw [heq] at hk
        refine ⟨rfl, calm_trans _ _ k1 _ ⟨hfix.kept, hfix.idle, fun u => ?_, fun u hu => ?_⟩
          (hrun k1 k hok hfix hcur ?_ hk)⟩
        · rw [htask]
          split_ifs <;> rfl
        · rw [htask] at hu
          split_ifs at hu
          exact Or.inl hu
        · rw [htask]
          split_ifs
          · exact Or.inr (by simp only [ne_eq, reduceCtorEq, not_false_eq_true])
          · exact Or.inr (by simp only [ne_eq, reduceCtorEq, not_false_eq_true])
          · exact Or.inl rfl
  | idlePrio =>
      rw [SchedSession.call, Option.some.injEq, Prod.mk.injEq] at hcall
      have hset := (setTaskPrio_running s.sched s.published s.sched.idle (maxPrio - 1) h.ok hc
        (by decide)).1
      rw [← hcall.2]
      refine ⟨rfl, ?_⟩
      simp only [hset]
      refine ⟨kept_refl _, rfl, fun u => ?_, fun u hu => ?_⟩
      · simp only [Sched.setTask, Function.update_apply]
        split_ifs with hu
        · rw [hu]
        · rfl
      · simp only [Sched.setTask, Function.update_apply] at hu
        split_ifs at hu with hu'
        · exact Or.inl (hu' ▸ hu)
        · exact Or.inl hu

/-- The scheduler with the mutexes, the tasks that are published, the mutexes that are
    initialised, and the tasks that are suspended in `mutex_lock_timeout`. -/
structure MutexSession where
  sys : MutexSys
  published : List Nat
  mutexes : List Nat
  waiting : List (Nat × Nat × Int)

/-- A call. The loops over lists are given a bound. -/
inductive MutexCall where
  | sched (c : SchedCall)
  | fork (t pid flag parent : Nat)
  | initMutex (m : Nat)
  | lock (m : Nat) (ms : Int)
  | resume
  | unlock (fuel m : Nat)
  | kill (fuel t : Nat)
  deriving DecidableEq, Repr

/-- What is seen of a call: that `mutex_lock_timeout` or `kill_task` returned. -/
inductive MutexAnswer where
  | done
  | returned (t m : Nat) (ret : Int)
  | asleep
  | killed (ret : Int)
  deriving DecidableEq, Repr

namespace MutexSession

/-- The scheduler alone. -/
def schedSession (s : MutexSession) : SchedSession :=
  ⟨s.sys.sched, s.published⟩

/-- The task is one the scheduler knows. -/
def Known (s : MutexSession) (t : Nat) : Prop :=
  s.sys.sched.Known s.published t

instance (s : MutexSession) (t : Nat) : Decidable (s.Known t) :=
  inferInstanceAs (Decidable (s.sys.sched.Known s.published t))

/-- The call the current task is suspended in, if it is. -/
def suspended (s : MutexSession) : Option (Nat × Nat × Int) :=
  s.waiting.find? (fun e => e.1 = s.sys.sched.current)

/-- The end of a pass of `mutex_lock_timeout`. -/
def passed (s : MutexSession) (e : Nat × Nat × Int) (r : LockPass × MutexSys) :
    MutexAnswer × MutexSession :=
  let waiting := s.waiting.filter (fun e' => e'.1 ≠ e.1)
  match r.1.ret with
  | some ret => (.returned e.1 e.2.1 ret, { s with sys := r.2, waiting := waiting })
  | none => (.asleep, { s with sys := r.2, waiting := e :: waiting })

/-- Make a call. -/
def call (s : MutexSession) : MutexCall → Option (MutexAnswer × MutexSession)
  | .sched c => (s.schedSession.call c).map (fun r =>
      (.done, { s with sys := { s.sys with sched := r.2.sched }, published := r.2.published }))
  | .fork t pid flag parent => some (.done,
      { s with
        sys := { s.sys with sched := (s.sys.sched.addChild parent t).publish t pid flag parent }
        published := t :: s.published })
  | .initMutex m => some (.done, { s with sys := s.sys.initMutex m, mutexes := m :: s.mutexes })
  | .lock m ms =>
      (s.sys.mutexLockTimeout m ms).map (s.passed (s.sys.sched.current, m, ms))
  | .resume =>
      match s.suspended with
      | some e => (s.sys.lockResume e.1 e.2.1 e.2.2).map (s.passed e)
      | none => none
  | .unlock fuel m => (MutexSys.mutexUnlock fuel s.sys m).map (fun k => (.done, { s with sys := k }))
  | .kill fuel t => (MutexSys.killTask fuel s.sys t).map (fun r =>
      if r.1 = 0 then
        (.killed r.1, { s with
          sys := r.2
          published := s.published.erase t
          waiting := s.waiting.filter (fun e => e.1 ≠ t) })
      else (.killed r.1, { s with sys := r.2 }))

/-- Which calls can be made. While a task is inside `mutex_lock_timeout` interrupts are
    disabled, and it can only resume. -/
def Allowed (s : MutexSession) (c : MutexCall) (_ : MutexAnswer) : Prop :=
  match c with
  | .sched c => s.suspended = none ∧ c.Plain ∧ s.schedSession.Allowed c ()
  | .fork t _ _ parent => s.suspended = none ∧ t ≠ 0 ∧ ¬s.Known t ∧ s.Known parent
  | .initMutex m => s.suspended = none ∧ m ∉ s.mutexes
  | .lock m _ => s.suspended = none ∧ m ∈ s.mutexes ∧ s.Known s.sys.sched.current ∧
      (s.sys.sched.task s.sys.sched.current).state = .running
  | .resume => True
  | .unlock _ m => s.suspended = none ∧ m ∈ s.mutexes
  | .kill _ t => s.suspended = none ∧ t ∈ s.published

/-- The session after `sched_init` and `build_idle_task`. -/
def booted (s : Sched) (count : Nat → Int) (idle : Nat) : MutexSession :=
  ⟨⟨s.schedInit.buildIdleTask idle, count⟩, [], [], []⟩

end MutexSession

instance (s : MutexSession) (c : MutexCall) (a : MutexAnswer) : Decidable (s.Allowed c a) :=
  match c with
  | .sched _ => inferInstanceAs (Decidable (_ ∧ _ ∧ _))
  | .fork _ _ _ _ => inferInstanceAs (Decidable (_ ∧ _ ∧ _ ∧ _))
  | .initMutex _ => inferInstanceAs (Decidable (_ ∧ _))
  | .lock _ _ => inferInstanceAs (Decidable (_ ∧ _ ∧ _ ∧ _))
  | .resume => inferInstanceAs (Decidable True)
  | .unlock _ _ => inferInstanceAs (Decidable (_ ∧ _))
  | .kill _ _ => inferInstanceAs (Decidable (_ ∧ _))

/-- What is true of a scheduler and its mutexes in every run. The set has the wait nodes
    there are, `owns` the mutexes of every task and `kids` its children. -/
structure MutexOk (k : MutexSys) (pub locks : List Nat) (S : Set TaskNode)
    (owns kids : Nat → List Nat) : Prop where
  sched : SchedInv ⟨k.sched, pub⟩
  awake : Awake k.sched pub S
  closed : ClosedKind k.sched.links .wait S
  known : ∀ t, k.sched.Known pub t → TaskNode.wait t ∈ S ∧ t ≠ 0
  heads : ∀ m ∈ locks, TaskNode.mutexWait m ∈ S
  own : OwnLists k.sched.links (k.sched.Known pub) owns
  owned : ∀ t, k.sched.Known pub t → ∀ m ∈ owns t, m ∈ locks
  count : ∀ m ∈ locks, (k.count m = 0 ∧ ∀ t, k.sched.Known pub t → m ∉ owns t) ∨
    (k.count m = 1 ∧ ∃ t, k.sched.Known pub t ∧ m ∈ owns t)
  tree : ProcessTree k.sched (k.sched.Known pub) kids
  born : ∀ t ∈ pub, ∃ q, k.sched.Known pub q ∧ t ∈ kids q

/-- The invariant of a run. -/
structure MutexInv (s : MutexSession) : Prop where
  ok : ∃ S owns kids, MutexOk s.sys s.published s.mutexes S owns kids
  waiting : ∀ e ∈ s.waiting, s.Known e.1 ∧ e.2.1 ∈ s.mutexes

section Steps

variable (k : MutexSys) (pub locks : List Nat) (S : Set TaskNode) (owns kids : Nat → List Nat)
  (h : MutexOk k pub locks S owns kids)

include h

/-- What is left to show when the tasks and their families stay the same. -/
theorem mutexOk_step (k' : MutexSys) (owns' : Nat → List Nat) (hinv : SchedInv ⟨k'.sched, pub⟩)
    (hidle : k'.sched.idle = k.sched.idle)
    (hasleep : ∀ u, (k'.sched.task u).state = .sleep →
      (k.sched.task u).state = .sleep ∨ k.sched.Known pub u)
    (hparent : ∀ u, (k'.sched.task u).parent = (k.sched.task u).parent)
    (hfamily : ∀ n : TaskNode, n.kind = .family →
      k'.sched.links.next n = k.sched.links.next n ∧ k'.sched.links.pre n = k.sched.links.pre n)
    (hclosed : ClosedKind k'.sched.links .wait S)
    (hown : OwnLists k'.sched.links (k.sched.Known pub) owns')
    (howned : ∀ t, k.sched.Known pub t → ∀ m ∈ owns' t, m ∈ locks)
    (hcount : ∀ m ∈ locks, (k'.count m = 0 ∧ ∀ t, k.sched.Known pub t → m ∉ owns' t) ∨
      (k'.count m = 1 ∧ ∃ t, k.sched.Known pub t ∧ m ∈ owns' t)) :
    MutexOk k' pub locks S owns' kids := by
  have hknown : k'.sched.Known pub = k.sched.Known pub := by
    funext u
    unfold Sched.Known
    rw [hidle]
  refine ⟨hinv, fun u hu => ?_, hclosed, hknown ▸ h.known, h.heads, hknown ▸ hown, hknown ▸ howned,
    hknown ▸ hcount, ?_, hknown ▸ h.born⟩
  · rw [hknown]
    by_cases hst : (k'.sched.task u).state = .sleep
    · rcases hasleep u hst with hs | hk
      · exact Or.inl ((h.awake u hu).resolve_right (not_not.mpr hs))
      · exact Or.inl hk
    · exact Or.inr hst
  · rw [hknown]
    refine ⟨hangs_congr _ _ _ _ _ h.tree.lists _ (fun _ _ => hfamily _ rfl)
      (fun _ _ _ _ => hfamily _ rfl), h.tree.known, fun u hu c hc => ?_, h.tree.rank⟩
    rw [hparent]
    exact h.tree.parent u hu c hc

/-- A call of the scheduler. -/
theorem mutexOk_calm (s : Sched) (hinv : SchedInv ⟨s, pub⟩) (hc : Calm pub k.sched s) :
    MutexOk { k with sched := s } pub locks S owns kids := by
  have honly := only_of_kept _ _ hc.kept
  exact mutexOk_step k pub locks S owns kids h _ owns hinv hc.idle hc.asleep hc.parent
    (fun n hn => honly n (by rw [hn]; decide)) (closedKind_only _ _ _ h.closed .sched _ (by decide)
    honly) (ownLists_only _ _ _ _ .sched honly (by decide) h.own) h.owned h.count

/-- An edit of wait nodes. -/
theorem mutexOk_wait (links : Links TaskNode) (ho : Only .wait k.sched.links links)
    (hS : ClosedKind links .wait S) : MutexOk (k.setLinks links) pub locks S owns kids :=
  mutexOk_step k pub locks S owns kids h _ owns
    (schedInv_only k.sched pub .wait links (by decide) ho h.sched) rfl (fun _ hu => Or.inl hu)
    (fun _ => rfl) (fun n hn => ho n (by rw [hn]; decide)) hS
    (ownLists_only _ _ _ _ .wait ho (by decide) h.own) h.owned h.count

/-- A mutex has one owner. -/
theorem owner_unique (t u m : Nat) (ht : k.sched.Known pub t) (hu : k.sched.Known pub u)
    (hmt : m ∈ owns t) (hmu : m ∈ owns u) : t = u :=
  hangs_apart _ _ _ _ _ h.own mutexGet_injective t u ht hu m hmt hmu

/-- A free mutex is taken. -/
theorem mutexOk_got (t m : Nat) (ht : k.sched.Known pub t) (hm : m ∈ locks) (h0 : k.count m = 0) :
    MutexOk ({ k with count := Function.update k.count m 1 }.setLinks
      (listAddTail k.sched.links (.mutexGet t) (.mutexTask m))) pub locks S
      (Function.update owns t (owns t ++ [m])) kids := by
  have hfree : ∀ u, k.sched.Known pub u → m ∉ owns u := by
    rcases h.count m hm with ⟨_, hf⟩ | ⟨h1, _⟩
    · exact hf
    · rw [h0] at h1
      exact absurd h1 (by decide)
  rcases ownLists_get k.sched.links _ owns h.own t m ht hfree with ⟨hown, honly⟩
  refine mutexOk_step k pub locks S owns kids h _ _
    (schedInv_only k.sched pub .own _ (by decide) honly h.sched) rfl (fun _ hu => Or.inl hu)
    (fun _ => rfl) (fun n hn => honly n (by rw [hn]; decide))
    (closedKind_only _ _ _ h.closed .own _ (by decide) honly) hown (fun u hu m' hm' => ?_)
    (fun m' hm' => ?_)
  · rw [Function.update_apply] at hm'
    split_ifs at hm' with hut
    · rcases List.mem_append.mp hm' with hm' | hm'
      · exact h.owned t ht m' hm'
      · exact (List.mem_singleton.mp hm') ▸ hm
    · exact h.owned u hu m' hm'
  · simp only [MutexSys.setLinks]
    by_cases hmm : m' = m
    · right
      rw [hmm, Function.update_self]
      refine ⟨rfl, t, ht, ?_⟩
      rw [Function.update_self]
      exact List.mem_append_right _ List.mem_cons_self
    · -- The other mutexes are where they were.
      have hsame : ∀ u, m' ∈ Function.update owns t (owns t ++ [m]) u ↔ m' ∈ owns u := by
        intro u
        rw [Function.update_apply]
        split_ifs with hut
        · rw [List.mem_append, List.mem_singleton, hut]
          simp only [hmm, or_false]
        · rfl
      simp only [hsame, Function.update_of_ne hmm]
      exact h.count m' hm'

/-- One pass of the loop of `mutex_lock_timeout`: the mutex was free and the task has it
    now, or it was not and only the wait lists and the scheduler have changed. -/
theorem lockPass_spec (t m : Nat) (ms : Int) (ht : k.sched.Known pub t) (hm : m ∈ locks)
    (r : LockPass) (k' : MutexSys) (hrun : k.lockPass t m ms = some (r, k')) :
    (k.count m = 0 ∧ r = .got ∧
        MutexOk k' pub locks S (Function.update owns t (owns t ++ [m])) kids ∧
        k'.count = Function.update k.count m 1 ∧ k'.sched.idle = k.sched.idle) ∨
      (k.count m ≠ 0 ∧ r ≠ .got ∧ MutexOk k' pub locks S owns kids ∧ k'.count = k.count ∧
        k'.sched.idle = k.sched.idle) := by
  have ht0 : t ≠ 0 := (h.known t ht).2
  unfold MutexSys.lockPass at hrun
  by_cases h0 : k.count m = 0
  · left
    simp only [h0, ne_eq, not_true_eq_false, if_false, ht0, not_false_eq_true, if_true,
      Option.some.injEq, Prod.mk.injEq] at hrun
    rcases hrun with ⟨rfl, rfl⟩
    exact ⟨h0, rfl, mutexOk_got k pub locks S owns kids h t m ht hm h0, rfl, rfl⟩
  · right
    rcases only_listAddTail k.sched.links .wait S h.closed (.mutexWait m) (.wait t) (h.heads m hm)
      (h.known t ht).1 with ⟨honly, hS⟩
    have h1 := mutexOk_wait k pub locks S owns kids h _ honly hS
    rw [if_pos h0] at hrun
    simp only at hrun
    split_ifs at hrun with href
    · -- The suspension is refused, and the node goes off the list again.
      simp only [Option.some.injEq, Prod.mk.injEq] at hrun
      rcases hrun with ⟨rfl, rfl⟩
      rcases only_listDel _ .wait S h1.closed (.wait t) (h.known t ht).1 with ⟨honly', hS'⟩
      exact ⟨h0, by decide, mutexOk_wait _ pub locks S owns kids h1 _ honly' hS', rfl, rfl⟩
    · simp only [Option.bind_eq_bind, Option.bind_eq_some_iff, Option.pure_def, Option.some.injEq,
        Prod.mk.injEq] at hrun
      rcases hrun with ⟨s, hs, rfl, rfl⟩
      have hcall : SchedSession.call ⟨(k.setLinks (listAddTail k.sched.links (.mutexWait m)
          (.wait t))).sched, pub⟩ (.suspend t ms) = some ((), ⟨s, pub⟩) := by
        simp only [SchedSession.call, hs, Option.map_some]
      have hcalm := schedCall_calm ⟨_, pub⟩ ⟨s, pub⟩ (.suspend t ms) h1.sched ht trivial hcall
      rcases schedInv_call _ (.suspend t ms) h1.sched ht with ⟨s', hcall', hinv⟩
      rw [hcall, Option.some.injEq, Prod.mk.injEq] at hcall'
      exact ⟨h0, by decide, mutexOk_calm _ pub locks S owns kids h1 s (hcall'.2 ▸ hinv) hcalm.2, rfl,
        hcalm.2.idle⟩

/-- What `mutex_lock_timeout` does when the task runs again. -/
theorem lockResume_spec (t m : Nat) (ms : Int) (ht : k.sched.Known pub t) (hm : m ∈ locks)
    (r : LockPass) (k' : MutexSys) (hrun : k.lockResume t m ms = some (r, k')) :
    ((k.sched.task t).timeOut = 0 ∧ k.count m = 0 ∧ r = .got ∧
        MutexOk k' pub locks S (Function.update owns t (owns t ++ [m])) kids ∧
        k'.count = Function.update k.count m 1 ∧ k'.sched.idle = k.sched.idle) ∨
      (¬((k.sched.task t).timeOut = 0 ∧ k.count m = 0) ∧ r ≠ .got ∧
        MutexOk k' pub locks S owns kids ∧ k'.count = k.count ∧
        k'.sched.idle = k.sched.idle) := by
  unfold MutexSys.lockResume at hrun
  split_ifs at hrun with hto
  · right
    simp only [Option.some.injEq, Prod.mk.injEq] at hrun
    rcases hrun with ⟨rfl, rfl⟩
    rcases only_listDel _ .wait S h.closed (.wait t) (h.known t ht).1 with ⟨honly, hS⟩
    exact ⟨fun hc => hto hc.1, by decide, mutexOk_wait k pub locks S owns kids h _ honly hS, rfl,
      rfl⟩
  · rw [ne_eq, not_not] at hto
    rcases lockPass_spec k pub locks S owns kids h t m ms ht hm r k' hrun with
      ⟨h0, hr, hok, hc⟩ | ⟨h0, hr, hok, hc⟩
    · exact Or.inl ⟨hto, h0, hr, hok, hc⟩
    · exact Or.inr ⟨fun hx => h0 hx.2, hr, hok, hc⟩

/-- Unlocking takes the mutex from its owner, whoever unlocks it. -/
theorem mutexOk_unlock (fuel m : Nat) (hm : m ∈ locks) (k' : MutexSys)
    (hrun : MutexSys.mutexUnlock fuel k m = some k') :
    ∃ owns', MutexOk k' pub locks S owns' kids ∧ k'.sched.idle = k.sched.idle := by
  rcases h.count m hm with ⟨h0, _⟩ | ⟨h1, t, ht, hmt⟩
  · unfold MutexSys.mutexUnlock at hrun
    rw [if_pos h0, Option.some.injEq] at hrun
    exact ⟨owns, hrun ▸ h, hrun ▸ rfl⟩
  · rcases mutexUnlock_frame pub S _ owns t m fuel k k' h.sched h.closed (h.heads m hm) h.awake
      h.own ht hmt (by rw [h1]; decide) hrun with ⟨hinv, hw, hS, hown, hcount⟩
    refine ⟨_, mutexOk_step k pub locks S owns kids h k' _ hinv hw.idle (fun u hu => ?_)
      (fun u => ?_) (fun n hn => hw.links n (by rw [hn]; decide)) hS hown (fun u hu m' hm' => ?_)
      (fun m' hm' => ?_), hw.idle⟩
    · rcases hw.task u with heq | ⟨hs, _⟩
      · exact Or.inl (heq ▸ hu)
      · exact Or.inl hs
    · rcases hw.task u with heq | ⟨_, heq⟩ <;> rw [heq]
    · rw [Function.update_apply] at hm'
      split_ifs at hm' with hut
      · exact h.owned t ht m' (List.mem_of_mem_erase hm')
      · exact h.owned u hu m' hm'
    · have hnd := hangs_nodup _ _ _ _ _ h.own t ht
      by_cases hmm : m' = m
      · left
        rw [hcount, hmm, Function.update_self]
        refine ⟨rfl, fun u hu hc => ?_⟩
        rw [Function.update_apply] at hc
        split_ifs at hc with hut
        · exact ((hnd.mem_erase_iff).mp hc).1 rfl
        · exact hut (owner_unique k pub locks S owns kids h u t m hu ht hc hmt)
      · -- The other mutexes are where they were.
        have hsame : ∀ u, m' ∈ Function.update owns t ((owns t).erase m) u ↔ m' ∈ owns u := by
          intro u
          rw [Function.update_apply]
          split_ifs with hut
          · rw [hnd.mem_erase_iff, hut]
            simp only [ne_eq, hmm, not_false_eq_true, true_and]
          · rfl
        simp only [hsame, hcount, Function.update_of_ne hmm]
        exact h.count m' hm'

/-- A mutex is initialised. -/
theorem mutexOk_initMutex (m : Nat) (hm : m ∉ locks) :
    MutexOk (k.initMutex m) pub (m :: locks) (insert (.mutexWait m) S) owns kids := by
  have hnot : ∀ t, k.sched.Known pub t → m ∉ owns t := fun t ht hc => hm (h.owned t ht m hc)
  have honly1 : Only .wait k.sched.links (initList k.sched.links (.mutexWait m)) :=
    only_initList k.sched.links (.mutexWait m)
  have honly2 : Only .own (initList k.sched.links (.mutexWait m)) (k.initMutex m).sched.links :=
    only_initList _ (.mutexTask m)
  have hinv := schedInv_only _ pub .own _ (by decide) honly2
    (schedInv_only k.sched pub .wait _ (by decide) honly1 h.sched)
  have hclosed : ClosedKind (k.initMutex m).sched.links .wait (insert (.mutexWait m) S) := by
    refine closedKind_only _ _ _ ⟨closed_initList _ S h.closed.closed _, ?_⟩ .own _ (by decide)
      honly2
    rintro n (rfl | hn)
    · rfl
    · exact h.closed.kind n hn
  -- The node of the mutex is on nobody's list.
  have hown : OwnLists (k.initMutex m).sched.links (k.sched.Known pub) owns := by
    have hsame : ∀ n : TaskNode, n.kind = .own → n ≠ .mutexTask m →
        (k.initMutex m).sched.links.next n = k.sched.links.next n ∧
          (k.initMutex m).sched.links.pre n = k.sched.links.pre n := by
      intro n hn hne
      have hw : n ≠ .mutexWait m := by
        rintro rfl
        cases hn
      simp only [MutexSys.initMutex, MutexSys.setLinks, initList, Links.setPre_next,
        Links.setNext_next, Links.setPre_pre, Links.setNext_pre, hw, hne, if_false, and_self]
    refine hangs_congr _ _ _ _ _ h.own _ (fun t _ => hsame _ rfl (by simp)) (fun t ht m' hm' =>
      hsame _ rfl ?_)
    rw [ne_eq, TaskNode.mutexTask.injEq]
    rintro rfl
    exact hnot t ht hm'
  have hfamily : ∀ n : TaskNode, n.kind = .family →
      (k.initMutex m).sched.links.next n = k.sched.links.next n ∧
        (k.initMutex m).sched.links.pre n = k.sched.links.pre n := by
    intro n hn
    have h2 := honly2 n (by rw [hn]; decide)
    have h1 := honly1 n (by rw [hn]; decide)
    exact ⟨h2.1.trans h1.1, h2.2.trans h1.2⟩
  refine ⟨hinv, fun t ht => ?_, hclosed, fun t ht => ?_, fun m' hm' => ?_, hown,
    fun t ht m' hm' => List.mem_cons_of_mem _ (h.owned t ht m' hm'), fun m' hm' => ?_, ?_, h.born⟩
  · refine h.awake t (Set.mem_of_mem_insert_of_ne ht ?_)
    simp
  · exact ⟨Set.mem_insert_of_mem _ (h.known t ht).1, (h.known t ht).2⟩
  · rcases List.mem_cons.mp hm' with rfl | hm'
    · exact Set.mem_insert _ _
    · exact Set.mem_insert_of_mem _ (h.heads m' hm')
  · simp only [MutexSys.initMutex]
    by_cases hmm : m' = m
    · rw [hmm, Function.update_self]
      exact Or.inl ⟨rfl, hnot⟩
    · rw [Function.update_of_ne hmm]
      exact h.count m' ((List.mem_cons.mp hm').resolve_left hmm)
  · exact ⟨hangs_congr _ _ _ _ _ h.tree.lists _ (fun _ _ => hfamily _ rfl)
      (fun _ _ _ _ => hfamily _ rfl), h.tree.known, h.tree.parent, h.tree.rank⟩

/-- A new task is the first child of its parent. -/
theorem addChild_families (t parent : Nat) (ht : ¬k.sched.Known pub t)
    (hpar : k.sched.Known pub parent) :
    Families (k.sched.addChild parent t).links (fun u => k.sched.Known pub u ∨ u = t)
        (Function.update (Function.update kids t []) parent (t :: kids parent)) ∧
      Only .family k.sched.links (k.sched.addChild parent t).links := by
  have hpt : parent ≠ t := by
    rintro rfl
    exact ht hpar
  have hne : ∀ u, k.sched.Known pub u → u ≠ t := by
    rintro u hu rfl
    exact ht hu
  -- Its two nodes are initialised.
  have hinit : ∀ n : TaskNode, n ≠ .p t → n ≠ .child t →
      ([TaskNode.p t, .child t].foldl initList k.sched.links).next n = k.sched.links.next n ∧
        ([TaskNode.p t, .child t].foldl initList k.sched.links).pre n = k.sched.links.pre n := by
    intro n hp hc
    rw [(foldl_initList _ n _).1, (foldl_initList _ n _).2, if_neg (by simp [hp, hc]),
      if_neg (by simp [hp, hc])]
    exact ⟨rfl, rfl⟩
  have hfresh := hangs_fresh k.sched.links ([TaskNode.p t, .child t].foldl initList k.sched.links)
    _ _ _ kids h.tree.lists child_injective (fun _ _ hc => by cases hc) t ht
    (by rw [(foldl_initList _ _ _).1, (foldl_initList _ _ _).2, if_pos (by simp),
      if_pos (by simp)]; exact ⟨rfl, rfl⟩)
    (fun u hu => hinit _ (by simp) (fun hc => hne u hu (child_injective hc)))
    (fun u hu c hc => hinit _ (fun hp => hne c (h.tree.known u hu c hc) (p_injective hp))
      (by simp))
  have hnokid : ∀ u, k.sched.Known pub u ∨ u = t → t ∉ Function.update kids t [] u := by
    intro u hu hc
    rw [Function.update_apply] at hc
    split_ifs at hc with hut
    · exact List.not_mem_nil hc
    · exact ht (h.tree.known u (hu.resolve_right hut) t hc)
  have hpush := hangs_push _ _ _ _ _ hfresh child_injective parent (Or.inl hpar) t p_injective
    (fun _ hc => by cases hc) hnokid
  rw [← listAdd_eq_link, Function.update_of_ne hpt] at hpush
  refine ⟨hpush, fun n hn => ?_⟩
  -- A node of another kind is not on the list of the parent.
  have hring := hangs_ring _ _ _ _ _ hfresh parent (Or.inl hpar)
  have hoff := listAdd_off _ _ n _ hring (fun hc => hn ?_) (.p t) (by rintro rfl; exact hn rfl)
  · have hi := hinit n (by rintro rfl; exact hn rfl) (by rintro rfl; exact hn rfl)
    exact ⟨hoff.1.trans hi.1, hoff.2.trans hi.2⟩
  · rcases List.mem_cons.mp hc with rfl | hc
    · rfl
    · rcases List.mem_map.mp hc with ⟨c, _, rfl⟩
      rfl

/-- What a fork does: the task is known, its nodes of waiting and of owning stand alone,
    and it is on the list of its parent. -/
structure Forked (pub : List Nat) (s s' : Sched) (t parent : Nat) : Prop where
  known : s'.Known (t :: pub) = fun u => s.Known pub u ∨ u = t
  current : s'.current = s.current
  task : ∃ r : Task, s'.task = Function.update s.task t r ∧ r.parent = parent
  self : ∀ n : TaskNode, n = .wait t ∨ n = .mutexGet t →
    s'.links.next n = n ∧ s'.links.pre n = n
  family : ∀ n : TaskNode, n.kind = .family →
    s'.links.next n = (s.addChild parent t).links.next n ∧
      s'.links.pre n = (s.addChild parent t).links.pre n
  rest : ∀ n : TaskNode, (n.kind = .wait ∧ n ≠ .wait t) ∨ (n.kind = .own ∧ n ≠ .mutexGet t) →
    s'.links.next n = s.links.next n ∧ s'.links.pre n = s.links.pre n

theorem fork_spec (t pid flag parent : Nat) (ht0 : t ≠ 0) (ht : ¬k.sched.Known pub t)
    (hpar : k.sched.Known pub parent) :
    SchedInv ⟨(k.sched.addChild parent t).publish t pid flag parent, t :: pub⟩ ∧
      Forked pub k.sched ((k.sched.addChild parent t).publish t pid flag parent) t parent := by
  have hpt : parent ≠ t := by
    rintro rfl
    exact ht hpar
  have honly := (addChild_families k pub locks S owns kids h t parent ht hpar).2
  have hinv1 := schedInv_only k.sched pub .family _ (by decide) honly h.sched
  have hinv := schedInv_fork ⟨k.sched.addChild parent t, pub⟩ t pid flag parent hinv1
    ⟨ht0, ht, hpar⟩
  rcases publish_spec (k.sched.addChild parent t) pub t pid flag parent hinv1.ok ht hpt
    (hinv1.ok.prio parent hpar) with
    ⟨r, htask, _, _, _, _, hrpar, _, _, _, hcur, _, hidle, _, _, _, hkept⟩
  have hsched := only_of_kept _ _ hkept
  have hlinks : ∀ n : TaskNode, n.kind ≠ .sched → n ∉ freshNodes t →
      ((k.sched.addChild parent t).publish t pid flag parent).links.next n =
        (k.sched.addChild parent t).links.next n ∧
      ((k.sched.addChild parent t).publish t pid flag parent).links.pre n =
        (k.sched.addChild parent t).links.pre n := by
    intro n hn hf
    rw [(hsched n hn).1, (hsched n hn).2, (foldl_initList _ n _).1, (foldl_initList _ n _).2,
      if_neg hf, if_neg hf]
    exact ⟨rfl, rfl⟩
  refine ⟨hinv, ?_, hcur, ⟨r, htask, hrpar⟩, fun n hn => ?_, fun n hn => hlinks n ?_ (fun hf => ?_),
    fun n hn => ?_⟩
  · funext u
    unfold Sched.Known
    rw [hidle, List.mem_cons]
    simp only [Sched.addChild, eq_iff_iff]
    tauto
  · have hf : n ∈ freshNodes t ∧ n.kind ≠ .sched := by
      rcases hn with rfl | rfl <;> simp [freshNodes, TaskNode.kind]
    rw [(hsched n hf.2).1, (hsched n hf.2).2, (foldl_initList _ n _).1, (foldl_initList _ n _).2,
      if_pos hf.1, if_pos hf.1]
    exact ⟨rfl, rfl⟩
  · rw [hn]
    decide
  · simp only [freshNodes, List.mem_cons, List.not_mem_nil, or_false] at hf
    rcases hf with rfl | rfl | rfl | rfl | rfl | rfl <;> cases hn
  · have hk : n.kind ≠ .sched ∧ n.kind ≠ .family := by
      rcases hn with ⟨hn, _⟩ | ⟨hn, _⟩ <;> rw [hn] <;> decide
    have hf : n ∉ freshNodes t := by
      intro hf
      simp only [freshNodes, List.mem_cons, List.not_mem_nil, or_false] at hf
      rcases hf with rfl | rfl | rfl | rfl | rfl | rfl <;>
        rcases hn with ⟨hn, hx⟩ | ⟨hn, hx⟩ <;> first | exact hx rfl | cases hn
    have h1 := hlinks n hk.1 hf
    have h2 := honly n hk.2
    exact ⟨h1.1.trans h2.1, h1.2.trans h2.2⟩

/-- A task is forked. -/
theorem mutexOk_fork (t pid flag parent : Nat) (ht0 : t ≠ 0) (ht : ¬k.sched.Known pub t)
    (hpar : k.sched.Known pub parent) :
    MutexOk { k with sched := (k.sched.addChild parent t).publish t pid flag parent } (t :: pub)
      locks (insert (.wait t) S) (Function.update owns t [])
      (Function.update (Function.update kids t []) parent (t :: kids parent)) := by
  have hpt : parent ≠ t := by
    rintro rfl
    exact ht hpar
  rcases addChild_families k pub locks S owns kids h t parent ht hpar with ⟨hfam, _⟩
  rcases fork_spec k pub locks S owns kids h t pid flag parent ht0 ht hpar with
    ⟨hinv, hknown, _, ⟨r, htask, hrpar⟩, hself, hfamily, hrest⟩
  have hother : ∀ u, u ≠ t → ((k.sched.addChild parent t).publish t pid flag parent).task u =
      k.sched.task u := by
    intro u hu
    rw [htask, Function.update_of_ne hu]
  have hne : ∀ u, k.sched.Known pub u → u ≠ t := by
    rintro u hu rfl
    exact ht hu
  rcases h.tree.rank with ⟨depth, hdepth⟩
  refine ⟨hinv, fun u hu => ?_, ⟨fun n hn => ?_, fun n hn => ?_⟩, fun u hu => ?_,
    fun m hm => Set.mem_insert_of_mem _ (h.heads m hm), ?_, fun u hu m hm => ?_, fun m hm => ?_,
    ⟨?_, fun u hu c hc => ?_, fun u hu c hc => ?_,
      Function.update depth t (depth parent + 1), fun u hu c hc => ?_⟩, fun u hu => ?_⟩
  · rw [hknown]
    by_cases hut : u = t
    · exact Or.inl (Or.inr hut)
    · rw [hother u hut]
      rcases h.awake u (Set.mem_of_mem_insert_of_ne hu (fun hc => hut (wait_injective hc))) with
        hk | hst
      · exact Or.inl (Or.inl hk)
      · exact Or.inr hst
  · by_cases hnt : n = .wait t
    · rw [hnt, (hself (.wait t) (Or.inl rfl)).1, (hself (.wait t) (Or.inl rfl)).2]
      exact ⟨Set.mem_insert _ _, Set.mem_insert _ _⟩
    · have hnS := Set.mem_of_mem_insert_of_ne hn hnt
      rw [(hrest n (Or.inl ⟨h.closed.kind n hnS, hnt⟩)).1,
        (hrest n (Or.inl ⟨h.closed.kind n hnS, hnt⟩)).2]
      exact ⟨Set.mem_insert_of_mem _ (h.closed.closed n hnS).1,
        Set.mem_insert_of_mem _ (h.closed.closed n hnS).2⟩
  · rcases hn with rfl | hn
    · rfl
    · exact h.closed.kind n hn
  · rw [hknown] at hu
    rcases hu with hu | rfl
    · exact ⟨Set.mem_insert_of_mem _ (h.known u hu).1, (h.known u hu).2⟩
    · exact ⟨Set.mem_insert _ _, ht0⟩
  · rw [hknown]
    exact hangs_fresh k.sched.links _ _ _ _ owns h.own mutexGet_injective (fun _ _ hc => by cases hc)
      t ht (hself (.mutexGet t) (Or.inr rfl))
      (fun u hu => hrest _ (Or.inr ⟨rfl, fun hc => hne u hu (mutexGet_injective hc)⟩))
      (fun u _ m _ => hrest _ (Or.inr ⟨rfl, by simp⟩))
  · rw [hknown] at hu
    rw [Function.update_apply] at hm
    split_ifs at hm with hut
    · exact absurd hm List.not_mem_nil
    · exact h.owned u (hu.resolve_right hut) m hm
  · rw [hknown]
    -- The new task has no mutex.
    have hown : ∀ u, m ∈ Function.update owns t [] u ↔ u ≠ t ∧ m ∈ owns u := by
      intro u
      rw [Function.update_apply]
      split_ifs with hut
      · simp [hut]
      · simp [hut]
    simp only [hown]
    rcases h.count m hm with ⟨h0, hnone⟩ | ⟨h1, u, hu, hmu⟩
    · exact Or.inl ⟨h0, fun u hu hc => hnone u (hu.resolve_right hc.1) hc.2⟩
    · exact Or.inr ⟨h1, u, Or.inl hu, hne u hu, hmu⟩
  · rw [hknown]
    exact hangs_congr _ _ _ _ _ hfam _ (fun _ _ => hfamily _ rfl) (fun _ _ _ _ => hfamily _ rfl)
  · rw [hknown] at hu ⊢
    simp only [Function.update_apply] at hc
    split_ifs at hc with hup hut
    · rcases List.mem_cons.mp hc with rfl | hc
      · exact Or.inr rfl
      · exact Or.inl (h.tree.known parent hpar c hc)
    · exact absurd hc List.not_mem_nil
    · exact Or.inl (h.tree.known u (hu.resolve_right hut) c hc)
  · rw [hknown] at hu
    simp only [Function.update_apply] at hc
    split_ifs at hc with hup hut
    · rcases List.mem_cons.mp hc with rfl | hc
      · rw [htask, Function.update_self, hrpar, hup]
      · rw [hother c (hne c (h.tree.known parent hpar c hc)), hup]
        exact h.tree.parent parent hpar c hc
    · exact absurd hc List.not_mem_nil
    · have hu' := hu.resolve_right hut
      rw [hother c (hne c (h.tree.known u hu' c hc))]
      exact h.tree.parent u hu' c hc
  · rw [hknown] at hu
    simp only [Function.update_apply] at hc
    split_ifs at hc with hup hut
    · rw [hup, Function.update_of_ne hpt]
      rcases List.mem_cons.mp hc with rfl | hc
      · rw [Function.update_self]
        exact Nat.lt_succ_self _
      · rw [Function.update_of_ne (hne c (h.tree.known parent hpar c hc))]
        exact hdepth parent hpar c hc
    · exact absurd hc List.not_mem_nil
    · have hu' := hu.resolve_right hut
      rw [Function.update_of_ne hut, Function.update_of_ne (hne c (h.tree.known u hu' c hc))]
      exact hdepth u hu' c hc
  · rw [hknown]
    rcases List.mem_cons.mp hu with rfl | hu
    · exact ⟨parent, Or.inl hpar, by rw [Function.update_self]; exact List.mem_cons_self⟩
    · rcases h.born u hu with ⟨q, hq, huq⟩
      refine ⟨q, Or.inl hq, ?_⟩
      simp only [Function.update_apply]
      split_ifs with hqp hqt
      · exact List.mem_cons_of_mem _ (hqp ▸ huq)
      · exact absurd hqt (hne q hq)
      · exact huq

end Steps

/-- After boot the idle task is alone, and has no mutex and no child. -/
theorem mutexOk_booted (s : Sched) (count : Nat → Int) (idle : Nat) (hidle : idle ≠ 0) :
    MutexOk ⟨s.schedInit.buildIdleTask idle, count⟩ [] [] {TaskNode.wait idle} (fun _ => [])
      (fun _ => []) := by
  have hknown : (s.schedInit.buildIdleTask idle).Known [] = fun u => u = idle := by
    funext u
    unfold Sched.Known
    simp only [List.not_mem_nil, false_or, eq_iff_iff]
    rfl
  have hself : ∀ n : TaskNode, n ∈ freshNodes idle ∨ n = .child idle →
      (s.schedInit.buildIdleTask idle).links.next n = n ∧
        (s.schedInit.buildIdleTask idle).links.pre n = n := by
    intro n hn
    have hlinks : (s.schedInit.buildIdleTask idle).links =
        (freshNodes idle).foldl initList ([TaskNode.child idle, .p idle].foldl initList
          s.schedInit.links) := rfl
    rw [hlinks, (foldl_initList _ _ _).1, (foldl_initList _ _ _).2]
    by_cases hf : n ∈ freshNodes idle
    · rw [if_pos hf, if_pos hf]
      exact ⟨rfl, rfl⟩
    · rw [if_neg hf, if_neg hf, (foldl_initList _ _ _).1, (foldl_initList _ _ _).2,
        if_pos (by simp [hn.resolve_left hf]), if_pos (by simp [hn.resolve_left hf])]
      exact ⟨rfl, rfl⟩
  have halone : ∀ head : Nat → TaskNode, ∀ node : Nat → TaskNode,
      head idle ∈ freshNodes idle ∨ head idle = .child idle →
      Hangs (s.schedInit.buildIdleTask idle).links head node (fun u => u = idle)
        (fun _ => []) := by
    intro head node hmem
    refine ⟨fun _ => [], ⟨?_, ?_⟩, fun _ _ => rfl⟩
    · rintro _ ⟨u, rfl, rfl⟩
      exact ⟨List.nodup_singleton _, List.isChain_pair.mpr (hself _ hmem)⟩
    · rintro _ ⟨u, rfl, rfl⟩ _ ⟨v, rfl, rfl⟩ hne
      exact absurd rfl hne
  have hwait := hself (.wait idle) (Or.inl (by simp [freshNodes]))
  refine ⟨schedInv_booted s idle, fun u hu => ?_, ⟨?_, ?_⟩, fun u hu => ?_,
    fun m hm => absurd hm List.not_mem_nil, ?_, fun u _ m hm => absurd hm List.not_mem_nil,
    fun m hm => absurd hm List.not_mem_nil, ⟨?_, fun u _ c hc => absurd hc List.not_mem_nil,
    fun u _ c hc => absurd hc List.not_mem_nil, fun _ => 0,
    fun u _ c hc => absurd hc List.not_mem_nil⟩, fun u hu => absurd hu List.not_mem_nil⟩
  · rw [Set.mem_singleton_iff] at hu
    left
    rw [hknown]
    exact wait_injective hu
  · rintro n rfl
    rw [hwait.1, hwait.2]
    exact ⟨rfl, rfl⟩
  · rintro n rfl
    rfl
  · rw [hknown] at hu
    rw [show u = idle from hu]
    exact ⟨rfl, hidle⟩
  · rw [hknown]
    exact halone _ _ (Or.inl (by simp [freshNodes]))
  · rw [hknown]
    exact halone _ _ (Or.inr rfl)

theorem mutexInv_booted (s : Sched) (count : Nat → Int) (idle : Nat) (hidle : idle ≠ 0) :
    MutexInv (MutexSession.booted s count idle) :=
  ⟨⟨_, _, _, mutexOk_booted s count idle hidle⟩, fun _ he => absurd he List.not_mem_nil⟩

/-- The calls before any task is killed. -/
def MutexCall.Live : MutexCall → Prop
  | .kill _ _ => False
  | _ => True

instance (c : MutexCall) : Decidable c.Live :=
  match c with
  | .sched _ => inferInstanceAs (Decidable True)
  | .fork _ _ _ _ => inferInstanceAs (Decidable True)
  | .initMutex _ => inferInstanceAs (Decidable True)
  | .lock _ _ => inferInstanceAs (Decidable True)
  | .resume => inferInstanceAs (Decidable True)
  | .unlock _ _ => inferInstanceAs (Decidable True)
  | .kill _ _ => inferInstanceAs (Decidable False)

/-- The tasks that wait, after a pass of `mutex_lock_timeout`. -/
theorem passed_waiting (s : MutexSession) (e : Nat × Nat × Int) (r : LockPass × MutexSys)
    (e' : Nat × Nat × Int) (h : e' ∈ (s.passed e r).2.waiting) : e' = e ∨ e' ∈ s.waiting := by
  unfold MutexSession.passed at h
  rcases hret : r.1.ret with _ | ret
  · simp only [hret] at h
    rcases List.mem_cons.mp h with h | h
    · exact Or.inl h
    · exact Or.inr (List.mem_filter.mp h).1
  · simp only [hret] at h
    exact Or.inr (List.mem_filter.mp h).1

theorem passed_fields (s : MutexSession) (e : Nat × Nat × Int) (r : LockPass × MutexSys) :
    (s.passed e r).2.sys = r.2 ∧ (s.passed e r).2.published = s.published ∧
      (s.passed e r).2.mutexes = s.mutexes := by
  unfold MutexSession.passed
  rcases hret : r.1.ret with _ | ret <;> exact ⟨rfl, rfl, rfl⟩

/-- The call the current task is suspended in is one of those that wait. -/
theorem suspended_mem (s : MutexSession) (e : Nat × Nat × Int) (h : s.suspended = some e) :
    e ∈ s.waiting ∧ e.1 = s.sys.sched.current := by
  unfold MutexSession.suspended at h
  exact ⟨List.mem_of_find?_eq_some h, by simpa using List.find?_some h⟩

/-- The end of a pass keeps the invariant. -/
theorem mutexInv_passed (s : MutexSession) (h : MutexInv s) (e : Nat × Nat × Int)
    (r : LockPass × MutexSys) (he : s.Known e.1 ∧ e.2.1 ∈ s.mutexes)
    (hok : ∃ S owns kids, MutexOk r.2 s.published s.mutexes S owns kids)
    (hidle : r.2.sched.idle = s.sys.sched.idle) : MutexInv (s.passed e r).2 := by
  rcases passed_fields s e r with ⟨hsys, hpub, hmut⟩
  refine ⟨by rw [hsys, hpub, hmut]; exact hok, fun e' he' => ?_⟩
  unfold MutexSession.Known Sched.Known
  rw [hsys, hpub, hmut, hidle]
  rcases passed_waiting s e r e' he' with rfl | he'
  · exact he
  · exact h.waiting e' he'

theorem mutexInv_call (s s' : MutexSession) (c : MutexCall) (a : MutexAnswer) (h : MutexInv s)
    (hc : s.Allowed c a) (hlive : c.Live) (hcall : s.call c = some (a, s')) : MutexInv s' := by
  rcases h.ok with ⟨S, owns, kids, hok⟩
  cases c with
  | sched c =>
      rcases hc with ⟨_, hplain, hal⟩
      rcases Option.map_eq_some_iff.mp hcall with ⟨⟨u, r⟩, hr, heq⟩
      rw [Prod.mk.injEq] at heq
      rw [← heq.2]
      have hcalm := schedCall_calm s.schedSession r c hok.sched hal hplain hr
      rcases schedInv_call s.schedSession c hok.sched hal with ⟨r', hr', hinv⟩
      rw [hr, Option.some.injEq, Prod.mk.injEq] at hr'
      rw [← hr'.2] at hinv
      have hpub : r.published = s.published := hcalm.1
      refine ⟨⟨S, owns, kids, ?_⟩, fun e he => ?_⟩
      · simp only [hpub]
        exact mutexOk_calm s.sys s.published s.mutexes S owns kids hok r.sched (hpub ▸ hinv) hcalm.2
      · unfold MutexSession.Known Sched.Known
        simp only [hpub]
        rw [hcalm.2.idle]
        exact h.waiting e he
  | fork t pid flag parent =>
      rcases hc with ⟨_, ht0, ht, hpar⟩
      rw [MutexSession.call, Option.some.injEq, Prod.mk.injEq] at hcall
      rw [← hcall.2]
      have hok' := mutexOk_fork s.sys s.published s.mutexes S owns kids hok t pid flag parent ht0 ht
        hpar
      refine ⟨⟨_, _, _, hok'⟩, fun e he => ?_⟩
      unfold MutexSession.Known
      simp only [(fork_spec s.sys s.published s.mutexes S owns kids hok t pid flag parent ht0 ht
        hpar).2.known]
      exact ⟨Or.inl (h.waiting e he).1, (h.waiting e he).2⟩
  | initMutex m =>
      rw [MutexSession.call, Option.some.injEq, Prod.mk.injEq] at hcall
      rw [← hcall.2]
      exact ⟨⟨_, _, _, mutexOk_initMutex s.sys s.published s.mutexes S owns kids hok m hc.2⟩,
        fun e he => ⟨(h.waiting e he).1, List.mem_cons_of_mem _ (h.waiting e he).2⟩⟩
  | lock m ms =>
      rcases hc with ⟨_, hm, hk, _⟩
      rcases Option.map_eq_some_iff.mp hcall with ⟨⟨r, k'⟩, hr, heq⟩
      have hs' : s' = (s.passed (s.sys.sched.current, m, ms) (r, k')).2 := by rw [heq]
      rw [hs']
      rcases lockPass_spec s.sys s.published s.mutexes S owns kids hok _ m ms hk hm r k' hr with
        ⟨_, _, hok', _, hidle⟩ | ⟨_, _, hok', _, hidle⟩ <;>
        exact mutexInv_passed s h _ _ ⟨hk, hm⟩ ⟨_, _, _, hok'⟩ hidle
  | resume =>
      rw [MutexSession.call] at hcall
      rcases hsus : s.suspended with _ | e
      · rw [hsus] at hcall
        exact absurd hcall (by simp only [reduceCtorEq, not_false_eq_true])
      · simp only [hsus] at hcall
        rcases Option.map_eq_some_iff.mp hcall with ⟨⟨r, k'⟩, hr, heq⟩
        have hs' : s' = (s.passed e (r, k')).2 := by rw [heq]
        rw [hs']
        have he := h.waiting e (suspended_mem s e hsus).1
        rcases lockResume_spec s.sys s.published s.mutexes S owns kids hok _ _ _ he.1 he.2 r k' hr
          with ⟨_, _, _, hok', _, hidle⟩ | ⟨_, _, hok', _, hidle⟩ <;>
          exact mutexInv_passed s h _ _ he ⟨_, _, _, hok'⟩ hidle
  | unlock fuel m =>
      rcases Option.map_eq_some_iff.mp hcall with ⟨k', hr, heq⟩
      rw [Prod.mk.injEq] at heq
      rw [← heq.2]
      rcases mutexOk_unlock s.sys s.published s.mutexes S owns kids hok fuel m hc.2 k' hr with
        ⟨owns', hok', hidle⟩
      refine ⟨⟨_, _, _, hok'⟩, fun e he => ?_⟩
      unfold MutexSession.Known Sched.Known
      simp only [hidle]
      exact h.waiting e he
  | kill fuel t => exact absurd hlive id

/-- The invariant holds along every run without kills. -/
theorem mutexInv_run (s : Sched) (count : Nat → Int) (idle : Nat) (hidle : idle ≠ 0)
    (ses : MutexSession)
    (hrun : Run.Reaches MutexSession.call (fun s c a => s.Allowed c a ∧ c.Live)
      (MutexSession.booted s count idle) ses) : MutexInv ses := by
  refine Run.invariant_of_reaches MutexSession.call _ MutexInv ?_ _ ses hrun
    (mutexInv_booted s count idle hidle)
  intro t c a t' h hc hcall
  exact mutexInv_call t t' c a h hc.1 hc.2 hcall

end Mirros
