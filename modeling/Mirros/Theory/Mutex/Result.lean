import Mirros.Theory.Mutex.Runs

/-!
# The Result of Locking

`mutex_lock_timeout` returns zero, whichever way it leaves its loop: with the mutex,
after a time-out, or because `suspend_task_timeout` refused to put the task to sleep.
The variable with the reason is not returned.

So the result says the truth exactly when the call ends with the mutex in the hands of
the task, and that is decided by the state in which the last pass begins: the mutex is
free then and the task did not time out, or the task has had the mutex all along.

## Main definitions

* `Owner`: The task owns the mutex.
* `MutexSession.Truthful`: When the result of the pass that begins is the truth.

## Theorems

* `owner_iff`: The owners of a run.
* `pass_truth`: One pass of the loop.
* `lockResult_iff`: The result is the truth in these cases only.
-/

namespace Mirros

/-- The mutex is locked and is on the list of the mutexes the task has got. -/
def Owner (k : MutexSys) (t m : Nat) : Prop :=
  k.count m = 1 ∧ ∃ xs, Ring k.sched.links (.mutexGet t) xs ∧ TaskNode.mutexTask m ∈ xs

theorem owner_iff (k : MutexSys) (pub locks : List Nat) (S : Set TaskNode)
    (owns kids : Nat → List Nat) (h : MutexOk k pub locks S owns kids) (t m : Nat)
    (ht : k.sched.Known pub t) (hm : m ∈ locks) : Owner k t m ↔ m ∈ owns t := by
  have hring := hangs_ring _ _ _ _ _ h.own t ht
  constructor
  · rintro ⟨_, xs, hxs, hmem⟩
    -- The list of a task is what its pointers say.
    rw [ring_unique _ _ _ _ hxs hring] at hmem
    exact (List.mem_map_of_injective mutexTask_injective).mp hmem
  · intro hmt
    refine ⟨?_, _, hring, List.mem_map_of_mem hmt⟩
    rcases h.count m hm with ⟨_, hnone⟩ | ⟨h1, _⟩
    · exact absurd hmt (hnone t ht)
    · exact h1

/-- The task that begins the pass gets the mutex in it, or has it. -/
def MutexSession.Truthful (s : MutexSession) : MutexCall → Prop
  | .lock m _ => s.sys.count m = 0 ∨ Owner s.sys s.sys.sched.current m
  | .resume => ∃ e, s.suspended = some e ∧
      ((s.sys.sched.task e.1).timeOut = 0 ∧ s.sys.count e.2.1 = 0 ∨ Owner s.sys e.1 e.2.1)
  | _ => True

/-- A call that returns, returns zero for the task and the mutex of the pass. -/
theorem passed_returned (s s' : MutexSession) (e : Nat × Nat × Int) (r : LockPass × MutexSys)
    (t m : Nat) (ret : Int) (h : s.passed e r = (.returned t m ret, s')) :
    t = e.1 ∧ m = e.2.1 ∧ ret = 0 ∧ s'.sys = r.2 ∧ r.1 ≠ .blocked := by
  unfold MutexSession.passed at h
  rcases hr : r.1 with _ | _ | _
  · simp only [hr, LockPass.ret, Prod.mk.injEq, MutexAnswer.returned.injEq] at h
    rcases h with ⟨⟨rfl, rfl, rfl⟩, rfl⟩
    exact ⟨rfl, rfl, rfl, rfl, by decide⟩
  · simp only [hr, LockPass.ret, Prod.mk.injEq, MutexAnswer.returned.injEq] at h
    rcases h with ⟨⟨rfl, rfl, rfl⟩, rfl⟩
    exact ⟨rfl, rfl, rfl, rfl, by decide⟩
  · simp only [hr, LockPass.ret, Prod.mk.injEq, reduceCtorEq, false_and] at h

/-- One pass, from a state of a run: zero is the truth if and only if the task gets the
    mutex in this pass or has it. -/
theorem pass_truth (k k' : MutexSys) (pub locks : List Nat) (S : Set TaskNode)
    (owns kids : Nat → List Nat) (h : MutexOk k pub locks S owns kids) (t m : Nat)
    (ht : k.sched.Known pub t) (hm : m ∈ locks) (got : Prop)
    (hpass : (got ∧ MutexOk k' pub locks S (Function.update owns t (owns t ++ [m])) kids ∧
        k'.sched.idle = k.sched.idle) ∨
      (¬got ∧ MutexOk k' pub locks S owns kids ∧ k'.sched.idle = k.sched.idle)) :
    Owner k' t m ↔ got ∨ Owner k t m := by
  have hkn : k'.sched.idle = k.sched.idle → k'.sched.Known pub t := by
    intro hidle
    unfold Sched.Known
    rw [hidle]
    exact ht
  rw [owner_iff k pub locks S owns kids h t m ht hm]
  rcases hpass with ⟨hgot, hok, hidle⟩ | ⟨hnot, hok, hidle⟩
  · rw [owner_iff k' pub locks S _ kids hok t m (hkn hidle) hm, Function.update_self,
      List.mem_append]
    exact ⟨fun _ => Or.inl hgot, fun _ => Or.inr List.mem_cons_self⟩
  · rw [owner_iff k' pub locks S owns kids hok t m (hkn hidle) hm]
    exact ⟨Or.inr, fun hx => hx.resolve_left hnot⟩

/-- In any run, when `mutex_lock_timeout` returns to its caller, the result zero means
    that the caller owns the mutex if and only if the last pass of the loop began with the
    mutex free and not after a time-out, or the caller has owned it all along. -/
theorem lockResult_iff (s : Sched) (count : Nat → Int) (idle : Nat) (hidle : idle ≠ 0)
    (ses ses' : MutexSession) (c : MutexCall) (t m : Nat) (ret : Int)
    (hrun : Run.Reaches MutexSession.call (fun s c a => s.Allowed c a ∧ c.Live)
      (MutexSession.booted s count idle) ses)
    (hc : ses.Allowed c (.returned t m ret))
    (hcall : ses.call c = some (.returned t m ret, ses')) :
    (ret = 0 ↔ Owner ses'.sys t m) ↔ ses.Truthful c := by
  have hinv := mutexInv_run s count idle hidle ses hrun
  rcases hinv.ok with ⟨S, owns, kids, hok⟩
  cases c with
  | lock m' ms =>
      rcases hc with ⟨_, hm, hk, _⟩
      rcases Option.map_eq_some_iff.mp hcall with ⟨⟨r, k'⟩, hr, heq⟩
      rcases passed_returned _ _ _ _ _ _ _ heq with ⟨rfl, rfl, rfl, hsys, _⟩
      have hpass := lockPass_spec ses.sys ses.published ses.mutexes S owns kids hok _ m ms hk hm r
        k' hr
      have htruth := pass_truth ses.sys k' ses.published ses.mutexes S owns kids hok _ m hk hm
        (ses.sys.count m = 0) (by
          rcases hpass with ⟨h0, _, h1, _, h2⟩ | ⟨h0, _, h1, _, h2⟩
          · exact Or.inl ⟨h0, h1, h2⟩
          · exact Or.inr ⟨h0, h1, h2⟩)
      rw [hsys, MutexSession.Truthful]
      simp only [true_iff]
      exact htruth
  | resume =>
      rw [MutexSession.call] at hcall
      rcases hsus : ses.suspended with _ | e
      · rw [hsus] at hcall
        exact absurd hcall (by simp only [reduceCtorEq, not_false_eq_true])
      · simp only [hsus] at hcall
        rcases Option.map_eq_some_iff.mp hcall with ⟨⟨r, k'⟩, hr, heq⟩
        rcases passed_returned _ _ _ _ _ _ _ heq with ⟨rfl, rfl, rfl, hsys, _⟩
        have he := hinv.waiting e (suspended_mem ses e hsus).1
        have hpass := lockResume_spec ses.sys ses.published ses.mutexes S owns kids hok _ _ _ he.1
          he.2 r k' hr
        have htruth := pass_truth ses.sys k' ses.published ses.mutexes S owns kids hok _ _ he.1 he.2
          ((ses.sys.sched.task e.1).timeOut = 0 ∧ ses.sys.count e.2.1 = 0) (by
            rcases hpass with ⟨h0, h0', _, h1, _, h2⟩ | ⟨h0, _, h1, _, h2⟩
            · exact Or.inl ⟨⟨h0, h0'⟩, h1, h2⟩
            · exact Or.inr ⟨h0, h1, h2⟩)
        rw [hsys, MutexSession.Truthful]
        simp only [true_iff, hsus, Option.some.injEq, exists_eq_left']
        exact htruth
  | sched c =>
      rcases Option.map_eq_some_iff.mp hcall with ⟨r, _, heq⟩
      cases (Prod.mk.inj heq).1
  | fork t' pid flag parent => cases (Prod.mk.inj (Option.some.inj hcall)).1
  | initMutex m' => cases (Prod.mk.inj (Option.some.inj hcall)).1
  | unlock fuel m' =>
      rcases Option.map_eq_some_iff.mp hcall with ⟨r, _, heq⟩
      cases (Prod.mk.inj heq).1
  | kill fuel t' =>
      rcases Option.map_eq_some_iff.mp hcall with ⟨r, _, heq⟩
      split_ifs at heq <;> cases (Prod.mk.inj heq).1

/-- A task with an empty list of mutexes is no owner. -/
theorem not_owner (k : MutexSys) (t m : Nat)
    (h : k.sched.links.next (.mutexGet t) = .mutexGet t) : ¬Owner k t m := by
  rintro ⟨_, xs, hxs, hmem⟩
  rw [(ring_next_self_iff _ _ _ hxs).mp h] at hmem
  exact List.not_mem_nil hmem

/-- The idle task holds a mutex, and the killer asks for it and sleeps for a tick, after
    which its time is over. -/
def timedOut : List MutexCall :=
  [.fork 0x200 0 1 0x100, .fork 0x300 1 2 0x100, .initMutex 0x900, .lock 0x900 (-1),
    .sched .idlePrio, .sched .sched, .lock 0x900 1, .sched .tick]

/-- The killer is told that it has the mutex when its time is over and it has not. -/
theorem lockResult_timedOut :
    ∃ ses ses', Run.Reaches MutexSession.call (fun s c a => s.Allowed c a ∧ c.Live)
        (MutexSession.booted blankSched (fun _ => 0) 0x100) ses ∧
      ses.call .resume = some (.returned 0x200 0x900 0, ses') ∧ ses'.sys.count 0x900 = 1 ∧
      ¬Owner ses'.sys 0x200 0x900 := by
  have heval : ((Run.follow MutexSession.call (fun s c a => s.Allowed c a ∧ c.Live)
      (MutexSession.booted blankSched (fun _ => 0) 0x100) timedOut).bind (fun ses =>
        (ses.call .resume).map (fun r =>
          (r.1, r.2.sys.count 0x900, r.2.sys.sched.links.next (.mutexGet 0x200))))) =
      some (.returned 0x200 0x900 0, 1, .mutexGet 0x200) := by decide +kernel
  rcases Option.bind_eq_some_iff.mp heval with ⟨ses, hses, hcall⟩
  rcases Option.map_eq_some_iff.mp hcall with ⟨⟨a, ses'⟩, hr, hval⟩
  simp only [Prod.mk.injEq] at hval
  rcases hval with ⟨rfl, hcount, hnext⟩
  exact ⟨ses, ses', Run.reaches_of_follow _ _ _ _ ses hses, hr, hcount, not_owner _ _ _ hnext⟩

/-- The idle task locks a mutex nobody has. -/
theorem lockResult_free :
    ∃ ses ses', Run.Reaches MutexSession.call (fun s c a => s.Allowed c a ∧ c.Live)
        (MutexSession.booted blankSched (fun _ => 0) 0x100) ses ∧
      ses.call (.lock 0x900 5) = some (.returned 0x100 0x900 0, ses') ∧
      ((0 : Int) = 0 ↔ Owner ses'.sys 0x100 0x900) := by
  have heval : ((Run.follow MutexSession.call (fun s c a => s.Allowed c a ∧ c.Live)
      (MutexSession.booted blankSched (fun _ => 0) 0x100) [.initMutex 0x900]).bind (fun ses =>
        (ses.call (.lock 0x900 5)).map (fun r =>
          (r.1, ses.sys.count 0x900, decide (ses.Allowed (.lock 0x900 5)
            (.returned 0x100 0x900 0)))))) =
      some (.returned 0x100 0x900 0, 0, true) := by decide +kernel
  rcases Option.bind_eq_some_iff.mp heval with ⟨ses, hses, hcall⟩
  rcases Option.map_eq_some_iff.mp hcall with ⟨⟨a, ses'⟩, hr, hval⟩
  simp only [Prod.mk.injEq, decide_eq_true_eq] at hval
  rcases hval with ⟨rfl, hcount, hal⟩
  have hrun := Run.reaches_of_follow MutexSession.call (fun s c a => s.Allowed c a ∧ c.Live) _ _
    ses hses
  exact ⟨ses, ses', hrun, hr, (lockResult_iff blankSched (fun _ => 0) 0x100 (by decide) ses ses'
    (.lock 0x900 5) 0x100 0x900 0 hrun hal hr).mpr (Or.inl hcount)⟩

end Mirros
