import Mirros.Theory.Sched.Session

/-!
# Timed Sleep

The loop of the tick goes over the list of sleeping tasks while it takes tasks off it.
Each task on the list is counted down once, and the tasks whose time is over go to the ends
of their ready lists in the order in which they slept.

Whether a task timed out is decided later, in `prepare_to_switch`, from what is left of its
time: zero after it ran out, more than zero when somebody woke the task up before, and less
when it had no limit. So there are two invariants of a task that was suspended with a limit,
one while nobody wakes it up and one from there on. Along a run a call does at most two
things to a task that it is not about: it counts the task down, and it switches to it or
away from it.

## Main definitions

* `Queues`: The sleeping tasks and the ready ones, in order.
* `SchedCall.ticked`, `Turned`: What a call does to a task that it is not about.
* `TimedSleep`, `WokenEarly`: The two invariants.

## Theorems

* `tickLoop_queues`: The loop of the tick.
* `spared_call`: One call.
* `timedSleep_run`, `wokenEarly_run`: The invariants along a run.
* `timed_sleep`: A task that is suspended with a limit.
-/

namespace Mirros

/-- The tasks on the list of sleeping tasks and those on each ready list, in order. -/
structure Queues (links : Links TaskNode) (sleeping : List Nat) (ready : Nat → List Nat) : Prop where
  sleep : Ring links (.list .sleep) (sleeping.map .sleep)
  prio : ∀ p < maxPrio, Ring links (.list (.prio p)) ((ready p).map .prioRunning)

/-- The lists have tasks on them, and no other nodes. -/
theorem queues_exist (s : Sched) (pub : List Nat) (hs : SchedOk s pub) :
    ∃ sleeping ready, Queues s.links sleeping ready ∧
      ∀ u, u ∈ sleeping ↔ s.Known pub u ∧ (s.task u).state = .sleep := by
  rcases hs.spread with ⟨f, hf⟩
  rcases spread_sleep s pub f hf with ⟨ts, hts, hmem⟩
  have hready : ∀ p, ∃ us : List Nat, p < maxPrio → f (.list (.prio p)) = us.map .prioRunning := by
    intro p
    by_cases hp : p < maxPrio
    · have hrange : f (.list (.prio p)) ∈ Set.range (List.map TaskNode.prioRunning) := by
        rw [Set.range_list_map]
        intro n hn
        rw [hf.mem (.prio p) hp] at hn
        cases n with
        | prioRunning u => exact ⟨u, rfl⟩
        | _ => simp [Sched.spot] at hn
      rcases hrange with ⟨us, hus⟩
      exact ⟨us, fun _ => hus.symm⟩
    · exact ⟨[], fun hc => absurd hc hp⟩
  choose ready hready using hready
  refine ⟨ts, ready, ⟨?_, fun p hp => ?_⟩, hmem⟩
  · rw [← hts]
    exact hf.rings.1 _ (mem_schedHeads .sleep trivial)
  · rw [← hready p hp]
    exact hf.rings.1 _ (mem_schedHeads (.prio p) hp)

theorem tickRecord_expires (task : Task) : (tickRecord task).waitTime = 0 ↔ task.Expires := by
  unfold tickRecord Task.Expires
  simp only
  split_ifs <;> omega

/-- A task whose time runs out is ready, and any other is in the state it was in. -/
theorem tickRecord_wakes (task : Task) :
    (tickRecord task).state = if task.Expires then .prepare else task.state := by
  have hiff := tickRecord_expires task
  unfold tickRecord at hiff ⊢
  simp only at hiff ⊢
  simp only [hiff]

/-- The loop of the tick counts every sleeping task down once. The tasks whose time is then
    zero leave the list for the ends of their ready lists, and the others stay. -/
theorem tickLoop_queues (s : Sched) (pub : List Nat) (hs : SchedOk s pub) (sleeping : List Nat)
    (ready : Nat → List Nat) (hq : Queues s.links sleeping ready) :
    ∃ k, Sched.tickLoop ((s.count .sleep).toNat + 1) s (s.links.next (.list .sleep)) = some k ∧
      (∀ u ∈ sleeping, k.task u = tickRecord (s.task u)) ∧
      (∀ u, u ∉ sleeping → k.task u = s.task u) ∧
      Queues k.links (sleeping.filter (fun u => (k.task u).waitTime ≠ 0))
        (fun p => ready p ++
          sleeping.filter (fun u => (k.task u).waitTime = 0 ∧ (k.task u).prio = p)) := by
  rcases hs.spread with ⟨f, hf⟩
  have hsleep : f (.list .sleep) = sleeping.map .sleep :=
    ring_unique _ _ _ _ (hf.rings.1 _ (mem_schedHeads .sleep trivial)) hq.sleep
  have hnext := ring_next_head _ _ _ (hf.rings.1 _ (mem_schedHeads .sleep trivial))
  rcases tickLoop_spec pub sleeping ((s.count .sleep).toNat + 1) s f [] hs hf hsleep (by
    rw [hf.count .sleep trivial, hsleep, List.length_map]
    omega) with ⟨k, f', hrun, _, hfix, _, _, htask, hf', hseq, hprio⟩
  rw [← hsleep, ← hnext] at hrun
  have hin : ∀ u ∈ sleeping, k.task u = tickRecord (s.task u) := by
    intro u hu
    rw [htask, if_pos hu]
  refine ⟨k, hrun, hin, fun u hu => by rw [htask, if_neg hu], ?_, fun p hp => ?_⟩
  · have hring := hf'.rings.1 _ (mem_schedHeads .sleep trivial)
    rw [hseq, List.nil_append] at hring
    have hfilter : sleeping.filter (fun u => (k.task u).waitTime ≠ 0) =
        sleeping.filter (fun u => ¬(s.task u).Expires) := by
      refine List.filter_congr (fun u hu => ?_)
      rw [hin u hu, decide_eq_decide, ne_eq, tickRecord_expires]
    rw [hfilter]
    exact hring
  · have hring := hf'.rings.1 _ (mem_schedHeads (.prio p) hp)
    have hbefore : f (.list (.prio p)) = (ready p).map .prioRunning :=
      ring_unique _ _ _ _ (hf.rings.1 _ (mem_schedHeads (.prio p) hp)) (hq.prio p hp)
    have hfilter : sleeping.filter (fun u => (k.task u).waitTime = 0 ∧ (k.task u).prio = p) =
        sleeping.filter (fun u => (s.task u).Expires ∧ (s.task u).prio = p) := by
      refine List.filter_congr (fun u hu => ?_)
      rw [decide_eq_decide, hfix.prio, hin u hu, tickRecord_expires]
    rw [hprio, hbefore, ← List.map_append] at hring
    simp only [hfilter]
    exact hring

/-- What the clock does to a task in a call. -/
def SchedCall.ticked (c : SchedCall) (task : Task) : Task :=
  if c = .tick ∧ task.state = .sleep then tickRecord task else task

/-- A task is switched to in place of another one, or it is not, and then all a switch can do
    to it is to put it back on its ready list. -/
def Turned (s s' : Sched) (t : Nat) (r : Task) : Prop :=
  (s.current ≠ t ∧ s'.current = t ∧ r.state = .prepare ∧ (s'.task t).state = .running ∧
    (s'.task t).waitTime = -1 ∧
    (s'.task t).timeOut = if r.waitTime = 0 then 1 else r.timeOut) ∨
  ((s'.current = t → s.current = t) ∧ (s'.task t).waitTime = r.waitTime ∧
    (s'.task t).timeOut = r.timeOut ∧
    ((s'.task t).state = r.state ∨ r.state = .running ∧ (s'.task t).state = .prepare))

/-- Nothing happens to the task. -/
theorem turned_rest (s s' : Sched) (t : Nat) (hcur : s'.current = s.current)
    (h : (s'.task t).waitTime = (s.task t).waitTime ∧ (s'.task t).timeOut = (s.task t).timeOut ∧
      (s'.task t).state = (s.task t).state) : Turned s s' t (s.task t) :=
  Or.inr ⟨fun hc => hcur ▸ hc, h.1, h.2.1, Or.inl h.2.2⟩

theorem turned_switched (s s' : Sched) (next t : Nat) (h : Switched s s' next)
    (hnext : next = s.current ∨ (s.task next).state = .prepare) : Turned s s' t (s.task t) := by
  have htask := h.task t
  unfold switchRecord at htask
  by_cases htn : t = next
  · rw [if_pos htn] at htask
    by_cases hcn : s.current = next
    · rw [if_pos hcn] at htask
      right
      rw [htask]
      exact ⟨fun _ => hcn.trans htn.symm, rfl, rfl, Or.inl rfl⟩
    · -- The task is the one that is switched to.
      rw [if_neg hcn] at htask
      left
      rw [htask]
      refine ⟨fun hc => hcn (hc.trans htn), h.current.trans htn.symm, ?_, rfl, rfl, rfl⟩
      rcases hnext with hn | hn
      · exact absurd hn.symm hcn
      · rw [htn]
        exact hn
  · rw [if_neg htn] at htask
    right
    refine ⟨fun hc => absurd (hc.symm.trans h.current) htn, ?_⟩
    rw [htask]
    split_ifs with hrun
    · exact ⟨rfl, rfl, Or.inr ⟨hrun.2, rfl⟩⟩
    · exact ⟨rfl, rfl, Or.inl rfl⟩

/-- What `sched` does to a task. -/
theorem turned_sched (s s' : Sched) (pub : List Nat) (t : Nat) (hs : SchedOk s pub)
    (hcur : s.Known pub s.current ∨ (s.task s.current).state ≠ .running)
    (h : s.sched = some s') : Turned s s' t (s.task t) := by
  rcases sched_spec s pub hs hcur with ⟨_, heq⟩ | ⟨k, next, heq, _, hsw, hwhich⟩
  · rw [heq, Option.some.injEq] at h
    subst h
    exact turned_rest s s t rfl ⟨rfl, rfl, rfl⟩
  · rw [heq, Option.some.injEq] at h
    subst h
    refine turned_switched s k next t hsw ?_
    rcases hwhich with ⟨_, hn⟩ | ⟨_, _, _, hst, _⟩
    · exact Or.inl hn
    · exact Or.inr hst

/-- A call that starts with a change that leaves the task and the current task alone. -/
theorem turned_after (s k s' : Sched) (t : Nat) (hcur : k.current = s.current)
    (htask : k.task t = s.task t) (h : Turned k s' t (k.task t)) : Turned s s' t (s.task t) := by
  unfold Turned at h ⊢
  rw [hcur, htask] at h
  exact h

/-- The calls that neither put a task to sleep, nor wake it up, nor kill it. The task that
    kills is woken up by every kill. -/
def SchedSession.Spares (s : SchedSession) (t : Nat) : SchedCall → Prop
  | .suspend u _ => u ≠ t
  | .wakeup u => u ≠ t
  | .killSelf u => u ≠ t ∧ s.sched.pidMap 0 ≠ t
  | _ => True

instance (s : SchedSession) (t : Nat) (c : SchedCall) : Decidable (s.Spares t c) :=
  match c with
  | .fork _ _ _ _ => inferInstanceAs (Decidable True)
  | .sched => inferInstanceAs (Decidable True)
  | .tick => inferInstanceAs (Decidable True)
  | .suspend _ _ => inferInstanceAs (Decidable (_ ≠ _))
  | .wakeup _ => inferInstanceAs (Decidable (_ ≠ _))
  | .killSelf _ => inferInstanceAs (Decidable (_ ∧ _))
  | .remove _ => inferInstanceAs (Decidable True)
  | .idlePrio => inferInstanceAs (Decidable True)

/-- The calls that wake a task up before its time. -/
def SchedSession.Wakes (s : SchedSession) (t : Nat) : SchedCall → Prop
  | .wakeup u => u = t
  | .killSelf u => u ≠ t ∧ s.sched.pidMap 0 = t
  | _ => False

section Call

variable (s s' : SchedSession) (t : Nat) (h : SchedInv s) (ht : s.Known t)

/-- The scheduler after a call that returns a state of its own. -/
theorem call_sched (o : Option Sched)
    (ho : o.map (fun k => ((), (⟨k, s.published⟩ : SchedSession))) = some ((), s')) :
    o = some s'.sched ∧ s'.published = s.published := by
  rcases Option.map_eq_some_iff.mp ho with ⟨k, rfl, hk⟩
  rw [← (Prod.mk.inj hk).2]
  exact ⟨rfl, rfl⟩

include ht in
/-- A call that ends with `sched`, from where that is called. -/
theorem turned_known (k : Sched) (hok : SchedOk k s.published) (hfix : Fixed s.sched k)
    (hcur : k.Known s.published k.current ∨ (k.task k.current).state ≠ .running)
    (hk : k.sched = some s'.sched) (hpub : s'.published = s.published) :
    Turned k s'.sched t (k.task t) ∧ s'.Known t := by
  refine ⟨turned_sched k s'.sched s.published t hok hcur hk, ?_⟩
  unfold SchedSession.Known
  rw [hpub]
  rcases sched_spec k s.published hok hcur with ⟨_, heq⟩ | ⟨k', next, heq, _, hsw, _⟩
  · rw [heq, Option.some.injEq] at hk
    exact hk ▸ (known_of_fixed s.sched k s.published t hfix).mpr ht
  · rw [heq, Option.some.injEq] at hk
    exact hk ▸ (known_of_fixed s.sched k' s.published t (fixed_trans _ _ _ hfix hsw.fixed)).mpr ht

include h

/-- A tick keeps the tasks there are. -/
theorem tick_fixed (k : Sched) (hrun : s.sched.osTickHandler = some k) : Fixed s.sched k := by
  rcases osTickHandler_spec s.sched s.published h.ok with ⟨d, hok, htick, heq⟩
  rw [heq] at hrun
  split_ifs at hrun with hrt
  · rcases switchTask_spec d s.published hok (ticked_current s.published s.sched d htick h.current)
      with ⟨k', next, hsw, _, hswitched, _⟩
    rw [hsw, Option.some.injEq] at hrun
    exact hrun ▸ fixed_trans _ _ _ htick.fixed hswitched.fixed
  · rw [Option.some.injEq] at hrun
    exact hrun ▸ htick.fixed

include ht

/-- What a tick does to a task. -/
theorem ticked_turned (k : Sched) (hrun : s.sched.osTickHandler = some k) :
    Turned s.sched k t (SchedCall.ticked .tick (s.sched.task t)) := by
  rcases osTickHandler_spec s.sched s.published h.ok with ⟨d, hok, htick, heq⟩
  -- The record of the current task differs in its run time only.
  have hrec : (d.task t).waitTime = (SchedCall.ticked .tick (s.sched.task t)).waitTime ∧
      (d.task t).timeOut = (SchedCall.ticked .tick (s.sched.task t)).timeOut ∧
      (d.task t).state = (SchedCall.ticked .tick (s.sched.task t)).state := by
    have hknown : s.sched.Known s.published t := ht
    unfold SchedCall.ticked
    by_cases htc : t = s.sched.current
    · rcases htick.self with ⟨r, hr, hself⟩
      rw [← htc] at hr hself
      rw [hself, hr]
      simp only [hknown, true_and, and_self]
    · rw [htick.other t htc]
      simp only [hknown, true_and, and_self]
  have hturn : Turned d k t (d.task t) := by
    rw [heq] at hrun
    split_ifs at hrun with hrt
    · rcases switchTask_spec d s.published hok (ticked_current s.published s.sched d htick h.current)
        with ⟨k', next, hsw, _, hswitched, hwhich⟩
      rw [hsw, Option.some.injEq] at hrun
      subst hrun
      refine turned_switched d k' next t hswitched ?_
      rcases hwhich with ⟨_, hn⟩ | ⟨_, _, _, hst, _⟩
      · exact Or.inl hn
      · exact Or.inr hst
    · rw [Option.some.injEq] at hrun
      subst hrun
      exact turned_rest d d t rfl ⟨rfl, rfl, rfl⟩
  unfold Turned at hturn ⊢
  rw [htick.current, hrec.1, hrec.2.1, hrec.2.2] at hturn
  exact hturn

/-- A call that spares a task counts it down if it is a tick, and may switch to it or away
    from it. -/
theorem spared_call (c : SchedCall) (hc : s.Allowed c ()) (hspare : s.Spares t c)
    (hidle : (s.sched.task t).state ≠ .idle) (hcall : s.call c = some ((), s')) :
    Turned s.sched s'.sched t (c.ticked (s.sched.task t)) ∧ s'.Known t := by
  have hsame : ∀ c : SchedCall, c ≠ .tick → c.ticked (s.sched.task t) = s.sched.task t := by
    intro c hne
    unfold SchedCall.ticked
    rw [if_neg (fun hc => hne hc.1)]
  have hstay : ∀ k : Sched, Fixed s.sched k → k.Known s.published t := fun k hk =>
    (known_of_fixed s.sched k s.published t hk).mpr ht
  have hsched : ∀ k : Sched, SchedOk k s.published → Fixed s.sched k → k.current = s.sched.current →
      k.task t = s.sched.task t → (k.Known s.published k.current ∨
        (k.task k.current).state ≠ .running) → k.sched = some s'.sched →
      s'.published = s.published →
      Turned s.sched s'.sched t (s.sched.task t) ∧ s'.Known t := by
    intro k hok hfix hcur htask hrun hk hpub
    rcases turned_known s s' t ht k hok hfix hrun hk hpub with ⟨hturn, hknown⟩
    exact ⟨turned_after s.sched k s'.sched t hcur htask hturn, hknown⟩
  cases c with
  | fork u pid flag parent =>
      rcases hc with ⟨_, hu, hpar⟩
      have hpu : parent ≠ u := fun hc => hu (hc ▸ hpar)
      have htu : t ≠ u := fun hc => hu (hc ▸ ht)
      rcases publish_spec s.sched s.published u pid flag parent h.ok hu hpu (h.ok.prio parent hpar)
        with ⟨r, htask, _, _, _, _, _, _, _, _, hcur, _, hidle', _⟩
      simp only [SchedSession.call, Option.some.injEq, Prod.mk.injEq, true_and] at hcall
      subst hcall
      rw [hsame _ (by simp only [ne_eq, reduceCtorEq, not_false_eq_true])]
      have hrec : (s.sched.publish u pid flag parent).task t = s.sched.task t := by
        rw [htask, Function.update_of_ne htu]
      refine ⟨turned_rest s.sched _ t hcur (by rw [hrec]; exact ⟨rfl, rfl, rfl⟩), ?_⟩
      rcases ht with ht | ht
      · exact Or.inl (List.mem_cons_of_mem u ht)
      · exact Or.inr (ht.trans hidle'.symm)
  | sched =>
      rcases call_sched s s' _ hcall with ⟨hk, hpub⟩
      rw [hsame .sched (by simp only [ne_eq, reduceCtorEq, not_false_eq_true])]
      exact hsched s.sched h.ok (fixed_refl _) rfl rfl h.current hk hpub
  | tick =>
      rcases call_sched s s' _ hcall with ⟨hk, hpub⟩
      refine ⟨ticked_turned s t h ht s'.sched hk, ?_⟩
      have hfix := tick_fixed s h s'.sched hk
      unfold SchedSession.Known
      rw [hpub]
      exact hstay s'.sched hfix
  | suspend u timeout =>
      rcases call_sched s s' _ hcall with ⟨hk, hpub⟩
      rw [hsame _ (by simp only [ne_eq, reduceCtorEq, not_false_eq_true])]
      rcases suspendTaskTimeout_spec s.sched s.published u timeout h.ok hc with
        ⟨_, heq⟩ | ⟨k, hok, hfix, hcur, _, _, _, _, htask, heq⟩
      · rw [heq, Option.some.injEq] at hk
        refine ⟨turned_rest s.sched _ t (by rw [← hk]) (by rw [← hk]; exact ⟨rfl, rfl, rfl⟩), ?_⟩
        unfold SchedSession.Known
        rw [hpub, ← hk]
        exact ht
      · refine hsched k hok hfix hcur ?_ ?_ (heq.symm.trans hk) hpub
        · rw [htask, Function.update_of_ne (Ne.symm hspare)]
        · rw [known_of_fixed _ _ _ _ hfix, hcur, htask, Function.update_apply]
          split_ifs with hcu
          · exact Or.inr (by simp only [ne_eq, reduceCtorEq, not_false_eq_true])
          · exact h.current
  | wakeup u =>
      rcases wakeupTask_spec s.sched s.published u h.ok hc with ⟨_, hfix, hcur, _, htask⟩
      simp only [SchedSession.call, Option.some.injEq, Prod.mk.injEq, true_and] at hcall
      subst hcall
      rw [hsame _ (by simp only [ne_eq, reduceCtorEq, not_false_eq_true])]
      have hrec : (s.sched.wakeupTask u).task t = s.sched.task t := by
        rw [htask, if_neg (fun hc => hspare hc.1.symm)]
      exact ⟨turned_rest s.sched _ t hcur (by rw [hrec]; exact ⟨rfl, rfl, rfl⟩), hstay _ hfix⟩
  | killSelf u =>
      rcases call_sched s s' _ hcall with ⟨hk, hpub⟩
      rw [hsame _ (by simp only [ne_eq, reduceCtorEq, not_false_eq_true])]
      rcases taskKillSelf_spec s.sched s.published u h.ok (Or.inl hc) (killer_known s h) with
        ⟨_, heq⟩ | ⟨k, hok, hfix, hcur, _, _, heq, htask⟩
      · rw [heq, Option.some.injEq] at hk
        refine ⟨turned_rest s.sched _ t (by rw [← hk]) (by rw [← hk]; exact ⟨rfl, rfl, rfl⟩), ?_⟩
        unfold SchedSession.Known
        rw [hpub, ← hk]
        exact ht
      · refine hsched k hok hfix hcur ?_ ?_ (heq.symm.trans hk) hpub
        · rw [htask, if_neg (Ne.symm hspare.1), if_neg (fun hc => hspare.2 hc.1.symm)]
        · rw [known_of_fixed _ _ _ _ hfix, hcur, htask]
          split_ifs
          · exact Or.inr (by simp only [ne_eq, reduceCtorEq, not_false_eq_true])
          · exact Or.inr (by simp only [ne_eq, reduceCtorEq, not_false_eq_true])
          · exact h.current
  | remove u =>
      rw [hsame _ (by simp only [ne_eq, reduceCtorEq, not_false_eq_true])]
      rcases schedRemoveTask_cases s.sched u with heq | ⟨k, hun, heq⟩
      · simp only [SchedSession.call, heq, Option.some.injEq, Prod.mk.injEq, true_and] at hcall
        subst hcall
        exact ⟨turned_rest s.sched _ t rfl ⟨rfl, rfl, rfl⟩, ht⟩
      · simp only [SchedSession.call, heq, Option.some.injEq, Prod.mk.injEq, true_and] at hcall
        subst hcall
        rcases schedUnlinkTask_spec s.sched s.published u h.ok h.nodup h.idle hc k hun with
          ⟨_, hfix, htask, hcur, _, hst, _⟩
        have htu : t ≠ u := fun hc => hidle (hc ▸ hst)
        have hrec : (k.releasePid u).task t = s.sched.task t := congrFun htask t
        refine ⟨turned_rest s.sched _ t hcur (by rw [hrec]; exact ⟨rfl, rfl, rfl⟩), ?_⟩
        rcases ht with ht | ht
        · exact Or.inl ((h.nodup.mem_erase_iff).mpr ⟨htu, ht⟩)
        · exact Or.inr (ht.trans hfix.idle.symm)
  | idlePrio =>
      simp only [SchedSession.call, Option.some.injEq, Prod.mk.injEq, true_and] at hcall
      subst hcall
      rw [hsame _ (by simp only [ne_eq, reduceCtorEq, not_false_eq_true])]
      rcases setTaskPrio_running s.sched s.published s.sched.idle (maxPrio - 1) h.ok hc (by decide)
        with ⟨heq, _⟩
      rw [heq]
      refine ⟨turned_rest s.sched _ t rfl ?_, ht⟩
      by_cases hti : t = s.sched.idle
      · rw [hti, setTask_task_self]
        exact ⟨rfl, rfl, rfl⟩
      · rw [setTask_task_other _ _ _ _ hti]
        exact ⟨rfl, rfl, rfl⟩

end Call

/-- A task that was suspended for `n` ticks and that nobody has woken up, `j` ticks later: it
    sleeps, or waits to be switched to, or has been switched to. -/
def TimedSleep (n j : Nat) (task : Task) : Prop :=
  (j < n ∧ task.state = .sleep ∧ task.waitTime = (n : Int) - j ∧ task.timeOut = 0) ∨
  (n ≤ j ∧ ((task.state = .prepare ∧ task.waitTime = 0 ∧ task.timeOut = 0) ∨
    ((task.state = .prepare ∨ task.state = .running) ∧ task.waitTime = -1 ∧ task.timeOut = 1)))

/-- A task that was woken up before its time was over. -/
def WokenEarly (task : Task) : Prop :=
  (task.state = .prepare ∨ task.state = .running) ∧ task.waitTime ≠ 0 ∧ task.timeOut = 0

/-- The ticks that have passed after a call. -/
def SchedCall.clock (c : SchedCall) (j : Nat) : Nat :=
  if c = .tick then j + 1 else j

theorem timedSleep_live (n j : Nat) (task : Task) (h : TimedSleep n j task) :
    task.state ≠ .idle ∧ (task.state = .sleep ↔ j < n) := by
  rcases h with ⟨hj, hst, _⟩ | ⟨hj, ⟨hst, _⟩ | ⟨hst | hst, _⟩⟩
  · rw [hst]
    exact ⟨by simp only [ne_eq, reduceCtorEq, not_false_eq_true], fun _ => hj, fun _ => rfl⟩
  all_goals
    rw [hst]
    exact ⟨by simp only [ne_eq, reduceCtorEq, not_false_eq_true], (fun hc => by cases hc),
      fun hc => absurd hc (Nat.not_lt.mpr hj)⟩

/-- The clock of one call. -/
theorem timedSleep_ticked (c : SchedCall) (n j : Nat) (task : Task) (h : TimedSleep n j task) :
    TimedSleep n (c.clock j) (c.ticked task) := by
  unfold SchedCall.clock SchedCall.ticked
  by_cases hc : c = .tick
  · rcases h with ⟨hj, hst, hw, ho⟩ | ⟨hj, h⟩
    · rw [if_pos hc, if_pos ⟨hc, hst⟩]
      have hwait : (tickRecord task).waitTime = (n : Int) - (j + 1 : Nat) := by
        unfold tickRecord
        simp only [hw]
        rw [if_pos (by omega)]
        omega
      have hstate := tickRecord_wakes task
      have hiff : task.Expires ↔ j + 1 = n := by
        rw [← tickRecord_expires, hwait]
        omega
      -- At the last tick the task is woken up, with nothing left.
      by_cases hlast : j + 1 = n
      · rw [if_pos (hiff.mpr hlast)] at hstate
        exact Or.inr ⟨Nat.le_of_eq hlast.symm, Or.inl ⟨hstate, by omega, ho⟩⟩
      · rw [if_neg (fun hc => hlast (hiff.mp hc)), hst] at hstate
        exact Or.inl ⟨by omega, hstate, hwait, ho⟩
    · have hnot : ¬(c = .tick ∧ task.state = .sleep) := by
        rintro ⟨_, hst⟩
        exact absurd ((timedSleep_live n j task (Or.inr ⟨hj, h⟩)).2.mp hst) (Nat.not_lt.mpr hj)
      rw [if_pos hc, if_neg hnot]
      exact Or.inr ⟨Nat.le_succ_of_le hj, h⟩
  · rw [if_neg hc, if_neg (fun hc' => hc hc'.1)]
    exact h

/-- A switch to the task decides that it timed out. -/
theorem timedSleep_turned (s s' : Sched) (t n j : Nat) (r : Task) (h : TimedSleep n j r)
    (hturn : Turned s s' t r) : TimedSleep n j (s'.task t) ∧
      (s.current ≠ t → s'.current = t → (s'.task t).timeOut = 1) := by
  rcases hturn with ⟨_, _, hr, hst, hw, ho⟩ | ⟨hstay, hw, ho, hst⟩
  · rcases h with ⟨_, hsleep, _⟩ | ⟨hj, ⟨_, hw0, _⟩ | ⟨_, hw1, ho1⟩⟩
    · rw [hsleep] at hr
      cases hr
    · rw [if_pos hw0] at ho
      exact ⟨Or.inr ⟨hj, Or.inr ⟨Or.inr hst, hw, ho⟩⟩, fun _ _ => ho⟩
    · rw [if_neg (by omega), ho1] at ho
      exact ⟨Or.inr ⟨hj, Or.inr ⟨Or.inr hst, hw, ho⟩⟩, fun _ _ => ho⟩
  · refine ⟨?_, fun hne hc => absurd (hstay hc) hne⟩
    unfold TimedSleep at h ⊢
    rw [hw, ho]
    rcases hst with hst | ⟨hrun, hst⟩
    · rw [hst]
      exact h
    · -- Back on the ready list.
      rw [hrun] at h
      rw [hst]
      simp only [reduceCtorEq, false_and, and_false, false_or, or_true, true_and] at h
      exact Or.inr ⟨h.1, Or.inr ⟨Or.inl rfl, h.2⟩⟩

theorem wokenEarly_idle (task : Task) (h : WokenEarly task) : task.state ≠ .idle := by
  rcases h.1 with hst | hst
  · rw [hst]
    simp only [ne_eq, reduceCtorEq, not_false_eq_true]
  · rw [hst]
    simp only [ne_eq, reduceCtorEq, not_false_eq_true]

theorem wokenEarly_ticked (c : SchedCall) (task : Task) (h : WokenEarly task) :
    c.ticked task = task := by
  unfold SchedCall.ticked
  refine if_neg (fun hc => ?_)
  rcases h.1 with hst | hst
  · rw [hst] at hc
    cases hc.2
  · rw [hst] at hc
    cases hc.2

theorem wokenEarly_turned (s s' : Sched) (t : Nat) (r : Task) (h : WokenEarly r)
    (hturn : Turned s s' t r) : WokenEarly (s'.task t) := by
  rcases hturn with ⟨_, _, _, hst, hw, ho⟩ | ⟨_, hw, ho, hst⟩
  · rw [if_neg h.2.1] at ho
    exact ⟨Or.inr hst, by omega, ho.trans h.2.2⟩
  · refine ⟨?_, by rw [hw]; exact h.2.1, ho.trans h.2.2⟩
    rcases hst with hst | ⟨_, hst⟩
    · rw [hst]
      exact h.1
    · exact Or.inl hst

namespace SchedSession

/-- A call, and the ticks that have passed. -/
def callClocked (s : SchedSession × Nat) (c : SchedCall) : Option (Unit × (SchedSession × Nat)) :=
  (s.1.call c).map (fun r => ((), (r.2, c.clock s.2)))

/-- The calls that can be made and spare a task. -/
def AllowedSparing (t : Nat) (s : SchedSession × Nat) (c : SchedCall) (_ : Unit) : Prop :=
  s.1.Allowed c () ∧ s.1.Spares t c

instance (t : Nat) (s : SchedSession × Nat) (c : SchedCall) (u : Unit) :
    Decidable (AllowedSparing t s c u) :=
  inferInstanceAs (Decidable (_ ∧ _))

/-- Whenever a call switches to the task in place of another one, this is its `time_out`. -/
def Verdict (s : SchedSession) (t out : Nat) : Prop :=
  ∀ c s', s.Allowed c () → s.Spares t c → s.call c = some ((), s') → s.sched.current ≠ t →
    s'.sched.current = t → (s'.sched.task t).timeOut = out

end SchedSession

section Runs

variable (t : Nat)

/-- A call that spares a task, seen from an invariant of the task. -/
theorem spared_step (s s' : SchedSession × Nat) (c : SchedCall) (h : SchedInv s.1)
    (ht : s.1.Known t) (hidle : (s.1.sched.task t).state ≠ .idle)
    (hal : SchedSession.AllowedSparing t s c ())
    (hcall : SchedSession.callClocked s c = some ((), s')) :
    SchedInv s'.1 ∧ s'.1.Known t ∧ s'.2 = c.clock s.2 ∧
      Turned s.1.sched s'.1.sched t (c.ticked (s.1.sched.task t)) := by
  rcases Option.map_eq_some_iff.mp hcall with ⟨⟨_, s₁⟩, hrun, heq⟩
  simp only [Prod.mk.injEq, true_and] at heq
  subst heq
  rcases schedInv_call s.1 c h hal.1 with ⟨s₂, hrun₂, hinv⟩
  have hsame : s₂ = s₁ := (Prod.mk.inj (Option.some.inj (hrun₂.symm.trans hrun))).2
  rcases spared_call s.1 s₁ t h ht c hal.1 hal.2 hidle hrun with ⟨hturn, hknown⟩
  exact ⟨hsame ▸ hinv, hknown, rfl, hturn⟩

/-- As long as nobody wakes it up, a task that was suspended for `n` ticks is where it should
    be. -/
theorem timedSleep_run (n : Nat) (s s' : SchedSession × Nat)
    (hrun : Run.Reaches SchedSession.callClocked (SchedSession.AllowedSparing t) s s')
    (h : SchedInv s.1 ∧ s.1.Known t ∧ TimedSleep n s.2 (s.1.sched.task t)) :
    SchedInv s'.1 ∧ s'.1.Known t ∧ TimedSleep n s'.2 (s'.1.sched.task t) := by
  refine Run.invariant_of_reaches SchedSession.callClocked (SchedSession.AllowedSparing t)
    (fun s => SchedInv s.1 ∧ s.1.Known t ∧ TimedSleep n s.2 (s.1.sched.task t)) ?_ s s' hrun h
  intro u c _ u' hu hal hcall
  rcases spared_step t u u' c hu.1 hu.2.1 (timedSleep_live _ _ _ hu.2.2).1 hal hcall with
    ⟨hinv, hknown, hclock, hturn⟩
  rw [hclock]
  exact ⟨hinv, hknown,
    (timedSleep_turned _ _ t n _ _ (timedSleep_ticked c n u.2 _ hu.2.2) hturn).1⟩

/-- The same of a task that was woken up before its time. -/
theorem wokenEarly_run (s s' : SchedSession × Nat)
    (hrun : Run.Reaches SchedSession.callClocked (SchedSession.AllowedSparing t) s s')
    (h : SchedInv s.1 ∧ s.1.Known t ∧ WokenEarly (s.1.sched.task t)) :
    SchedInv s'.1 ∧ s'.1.Known t ∧ WokenEarly (s'.1.sched.task t) := by
  refine Run.invariant_of_reaches SchedSession.callClocked (SchedSession.AllowedSparing t)
    (fun s => SchedInv s.1 ∧ s.1.Known t ∧ WokenEarly (s.1.sched.task t)) ?_ s s' hrun h
  intro u c _ u' hu hal hcall
  rcases spared_step t u u' c hu.1 hu.2.1 (wokenEarly_idle _ hu.2.2) hal hcall with
    ⟨hinv, hknown, _, hturn⟩
  rw [wokenEarly_ticked c _ hu.2.2] at hturn
  exact ⟨hinv, hknown, wokenEarly_turned _ _ t _ hu.2.2 hturn⟩

/-- A task whose time is over timed out. -/
theorem timedSleep_verdict (s : SchedSession) (n j : Nat) (h : SchedInv s) (ht : s.Known t)
    (htimed : TimedSleep n j (s.sched.task t)) : s.Verdict t 1 := by
  intro c s' hal hspare hcall
  rcases spared_call s s' t h ht c hal hspare (timedSleep_live _ _ _ htimed).1 hcall with ⟨hturn, _⟩
  exact (timedSleep_turned _ _ t n _ _ (timedSleep_ticked c n j _ htimed) hturn).2

theorem wokenEarly_verdict (s : SchedSession) (h : SchedInv s) (ht : s.Known t)
    (hwoken : WokenEarly (s.sched.task t)) : s.Verdict t 0 := by
  intro c s' hal hspare hcall _ _
  rcases spared_call s s' t h ht c hal hspare (wokenEarly_idle _ hwoken) hcall with ⟨hturn, _⟩
  rw [wokenEarly_ticked c _ hwoken] at hturn
  exact (wokenEarly_turned _ _ t _ hwoken hturn).2.2

/-- The call that suspends a task. -/
theorem suspend_timed (s : SchedSession) (n : Nat) (h : SchedInv s) (ht : s.Known t) (hzero : t ≠ 0)
    (hidle : (s.sched.task t).state ≠ .idle) (hn : 0 < n) :
    ∃ s', s.call (.suspend t n) = some ((), s') ∧ SchedInv s' ∧ s'.Known t ∧
      TimedSleep n 0 (s'.sched.task t) := by
  rcases schedInv_call s (.suspend t n) h ht with ⟨s', hcall, hinv⟩
  rcases call_sched s s' _ hcall with ⟨hk, hpub⟩
  rcases suspendTaskTimeout_spec s.sched s.published t n h.ok ht with
    ⟨hbad, _⟩ | ⟨k, hok, hfix, hcur, _, _, _, _, htask, heq⟩
  · rcases hbad with hbad | hbad | hbad
    · exact absurd hbad hzero
    · exact absurd hbad (by omega)
    · exact absurd hbad hidle
  · have hrun : k.Known s.published k.current ∨ (k.task k.current).state ≠ .running := by
      rw [known_of_fixed _ _ _ _ hfix, hcur, htask, Function.update_apply]
      split_ifs with hcu
      · exact Or.inr (by simp only [ne_eq, reduceCtorEq, not_false_eq_true])
      · exact h.current
    rcases turned_known s s' t ht k hok hfix hrun (heq.symm.trans hk) hpub with ⟨hturn, hknown⟩
    have hself : TimedSleep n 0 (k.task t) := by
      rw [htask, Function.update_self]
      exact Or.inl ⟨hn, rfl, (Int.sub_zero _).symm, rfl⟩
    exact ⟨s', hcall, hinv, hknown, (timedSleep_turned _ _ t n 0 _ hself hturn).1⟩

/-- The call that wakes a task up before its time. -/
theorem wakes_early (s s' : SchedSession) (c : SchedCall) (h : SchedInv s) (ht : s.Known t)
    (hzero : t ≠ 0) (hst : (s.sched.task t).state = .sleep)
    (hw : (s.sched.task t).waitTime ≠ 0) (ho : (s.sched.task t).timeOut = 0)
    (hc : s.Allowed c ()) (hwakes : s.Wakes t c) (hcall : s.call c = some ((), s')) :
    SchedInv s' ∧ s'.Known t ∧ WokenEarly (s'.sched.task t) := by
  rcases schedInv_call s c h hc with ⟨s₂, hcall₂, hinv⟩
  have hsame : s₂ = s' := (Prod.mk.inj (Option.some.inj (hcall₂.symm.trans hcall))).2
  refine ⟨hsame ▸ hinv, ?_⟩
  cases c with
  | wakeup u =>
      have hu : u = t := hwakes
      subst hu
      rcases wakeupTask_spec s.sched s.published u h.ok hc with ⟨_, hfix, hcur, _, htask⟩
      simp only [SchedSession.call, Option.some.injEq, Prod.mk.injEq, true_and] at hcall
      subst hcall
      refine ⟨(known_of_fixed _ _ _ _ hfix).mpr ht, ?_⟩
      rw [htask, if_pos ⟨rfl, hst⟩]
      exact ⟨Or.inl rfl, hw, ho⟩
  | killSelf u =>
      rcases call_sched s s' _ hcall with ⟨hk, hpub⟩
      rcases hwakes with ⟨hut, hkiller⟩
      rcases taskKillSelf_spec s.sched s.published u h.ok (Or.inl hc) (killer_known s h) with
        ⟨hnone, _⟩ | ⟨k, hok, hfix, hcur, _, _, heq, htask⟩
      · exact absurd (hkiller.symm.trans hnone) hzero
      · have hrun : k.Known s.published k.current ∨ (k.task k.current).state ≠ .running := by
          rw [known_of_fixed _ _ _ _ hfix, hcur, htask]
          split_ifs
          · exact Or.inr (by simp only [ne_eq, reduceCtorEq, not_false_eq_true])
          · exact Or.inr (by simp only [ne_eq, reduceCtorEq, not_false_eq_true])
          · exact h.current
        rcases turned_known s s' t ht k hok hfix hrun (heq.symm.trans hk) hpub with ⟨hturn, hknown⟩
        refine ⟨hknown, wokenEarly_turned _ _ t _ ?_ hturn⟩
        rw [htask, if_neg (Ne.symm hut), if_pos ⟨hkiller.symm, hst⟩]
        exact ⟨Or.inl rfl, hw, ho⟩
  | _ => exact absurd hwakes (fun hc => hc)

end Runs

/-- The tick and timed sleep. The loop of the tick ends; it counts each sleeping task with
    time left down by one, moves those that have none left to the ends of their ready lists in
    order, and leaves those without a limit alone. A task that is suspended for `n` ticks and
    spared by all later calls is on the list of sleeping tasks until the last of these ticks,
    and has timed out when it is switched to; when it is woken up before, it has not. -/
theorem timed_sleep (s : SchedSession) (h : SchedInv s) :
    (∃ sleeping ready, Queues s.sched.links sleeping ready ∧
      ∃ k, Sched.tickLoop ((s.sched.count .sleep).toNat + 1) s.sched
          (s.sched.links.next (.list .sleep)) = some k ∧
        (∀ u ∈ sleeping,
          (0 < (s.sched.task u).waitTime →
            (k.task u).waitTime = (s.sched.task u).waitTime - 1) ∧
          ((s.sched.task u).waitTime < 0 → k.task u = s.sched.task u) ∧
          (k.task u).state = if (k.task u).waitTime = 0 then .prepare else .sleep) ∧
        (∀ u, u ∉ sleeping → k.task u = s.sched.task u) ∧
        Queues k.links (sleeping.filter (fun u => (k.task u).waitTime ≠ 0))
          (fun p => ready p ++
            sleeping.filter (fun u => (k.task u).waitTime = 0 ∧ (k.task u).prio = p))) ∧
    ∀ (t n : Nat), s.Known t → t ≠ 0 → (s.sched.task t).state ≠ .idle → 0 < n →
      ∃ s₁, s.call (.suspend t n) = some ((), s₁) ∧
        ∀ s₂ j, Run.Reaches SchedSession.callClocked (SchedSession.AllowedSparing t) (s₁, 0) (s₂, j) →
          (∃ sleeping ready, Queues s₂.sched.links sleeping ready ∧ (t ∈ sleeping ↔ j < n)) ∧
          s₂.Verdict t 1 ∧
          (j < n → ∀ c s₃, s₂.Allowed c () → s₂.Wakes t c → s₂.call c = some ((), s₃) →
            (∃ sleeping ready, Queues s₃.sched.links sleeping ready ∧ t ∉ sleeping) ∧
            (s₃.sched.task t).timeOut = 0 ∧
            ∀ s₄ j', Run.Reaches SchedSession.callClocked (SchedSession.AllowedSparing t)
              (s₃, j) (s₄, j') → s₄.Verdict t 0) := by
  constructor
  · rcases queues_exist s.sched s.published h.ok with ⟨sleeping, ready, hq, hmem⟩
    rcases tickLoop_queues s.sched s.published h.ok sleeping ready hq with
      ⟨k, hrun, hin, hout, hq'⟩
    refine ⟨sleeping, ready, hq, k, hrun, fun u hu => ?_, hout, hq'⟩
    have hstate := tickRecord_wakes (s.sched.task u)
    simp only [((hmem u).mp hu).2, ← tickRecord_expires] at hstate
    rw [hin u hu]
    refine ⟨fun hw => if_pos hw, fun hw => ?_, hstate⟩
    have hne : ¬(s.sched.task u).waitTime = 0 := by omega
    simp only [tickRecord, if_neg (Int.not_lt.mpr (Int.le_of_lt hw)), if_neg hne]
  · intro t n ht hzero hidle hn
    rcases suspend_timed t s n h ht hzero hidle hn with ⟨s₁, hcall, hinv₁, hknown₁, htimed₁⟩
    refine ⟨s₁, hcall, fun s₂ j hrun => ?_⟩
    rcases timedSleep_run t n (s₁, 0) (s₂, j) hrun ⟨hinv₁, hknown₁, htimed₁⟩ with
      ⟨hinv, hknown, htimed⟩
    simp only at hinv hknown htimed
    refine ⟨?_, timedSleep_verdict t s₂ n j hinv hknown htimed, fun hj c s₃ hc hwakes hcall₃ => ?_⟩
    · rcases queues_exist s₂.sched s₂.published hinv.ok with ⟨sleeping, ready, hq, hmem⟩
      refine ⟨sleeping, ready, hq, ?_⟩
      rw [hmem, ← (timedSleep_live n j _ htimed).2]
      exact ⟨fun hst => hst.2, fun hst => ⟨hknown, hst⟩⟩
    · -- Before its time is over the task sleeps, with some of it left.
      have hst := (timedSleep_live n j _ htimed).2.mpr hj
      have hleft : (s₂.sched.task t).waitTime ≠ 0 ∧ (s₂.sched.task t).timeOut = 0 := by
        rcases htimed with ⟨_, _, hw, ho⟩ | ⟨hle, _⟩
        · exact ⟨by omega, ho⟩
        · exact absurd hj (Nat.not_lt.mpr hle)
      rcases wakes_early t s₂ s₃ c hinv hknown hzero hst hleft.1 hleft.2 hc hwakes hcall₃ with
        ⟨hinv₃, hknown₃, hwoken⟩
      refine ⟨?_, hwoken.2.2, fun s₄ j' hrun₄ => ?_⟩
      · rcases queues_exist s₃.sched s₃.published hinv₃.ok with ⟨sleeping, ready, hq, hmem⟩
        refine ⟨sleeping, ready, hq, fun hc => ?_⟩
        have hsleep := ((hmem t).mp hc).2
        rcases hwoken.1 with hst₃ | hst₃
        · rw [hst₃] at hsleep
          cases hsleep
        · rw [hst₃] at hsleep
          cases hsleep
      · rcases wokenEarly_run t (s₃, j) (s₄, j') hrun₄ ⟨hinv₃, hknown₃, hwoken⟩ with
          ⟨hinv₄, hknown₄, hwoken₄⟩
        exact wokenEarly_verdict t s₄ hinv₄ hknown₄ hwoken₄

/-- The second of three tasks sleeps for two ticks, and then timed out. -/
theorem timed_sleep_two : ∃ s s₁ s₂, Run.Reaches SchedSession.call SchedSession.Allowed
      (SchedSession.booted blankSched 0x100) s ∧
    s.call (.suspend 0x300 2) = some ((), s₁) ∧
    Run.Reaches SchedSession.callClocked (SchedSession.AllowedSparing 0x300) (s₁, 0) (s₂, 2) ∧
    (∃ sleeping ready, Queues s₂.sched.links sleeping ready ∧ (0x300 ∈ sleeping ↔ 2 < 2)) ∧
    s₂.Verdict 0x300 1 := by
  have heval : ((Run.follow SchedSession.call SchedSession.Allowed
      (SchedSession.booted blankSched 0x100)
      [.fork 0x200 0 1 0x100, .fork 0x300 1 2 0x100, .fork 0x400 2 2 0x300, .sched]).bind
        (fun s => (s.call (.suspend 0x300 2)).bind (fun r =>
          (Run.follow SchedSession.callClocked (SchedSession.AllowedSparing 0x300) (r.2, 0)
            [.tick, .tick]).map (fun s₂ => (decide (s.Known 0x300),
              decide ((s.sched.task 0x300).state = .idle), s₂.2))))) = some (true, false, 2) := by
    decide +kernel
  rcases Option.bind_eq_some_iff.mp heval with ⟨s, hs, heval⟩
  rcases Option.bind_eq_some_iff.mp heval with ⟨⟨_, s₁⟩, hs₁, heval⟩
  rcases Option.map_eq_some_iff.mp heval with ⟨⟨s₂, j⟩, hs₂, hdata⟩
  simp only [Prod.mk.injEq, decide_eq_true_eq, decide_eq_false_iff_not] at hdata
  rcases hdata with ⟨hknown, hidle, rfl⟩
  have hreach := Run.reaches_of_follow SchedSession.call SchedSession.Allowed _ _ s hs
  have hrun := Run.reaches_of_follow SchedSession.callClocked (SchedSession.AllowedSparing 0x300)
    _ _ _ hs₂
  rcases (timed_sleep s (schedInv_run blankSched 0x100 s hreach)).2 0x300 2 hknown (by decide) hidle
    (by decide) with ⟨s₁', hs₁', hall⟩
  have hsame : s₁' = s₁ := (Prod.mk.inj (Option.some.inj (hs₁'.symm.trans hs₁))).2
  subst hsame
  rcases hall s₂ 2 hrun with ⟨hlist, hverdict, _⟩
  exact ⟨s, s₁', s₂, hreach, hs₁', hrun, hlist, hverdict⟩

end Mirros
