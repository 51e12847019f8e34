import Mirros.Theory.Mutex.Wakes

/-!
# Unlocking

What `mutex_unlock` does for a mutex that some task has got, and what the loop of
`kill_task` does that unlocks all mutexes of a task. Both take the mutex off the
list of its owner, the loop while it stands on it.

As with the waiters there is a statement for any pointers of the wait nodes, which
takes it that the call returns, and one for whole lists, which proves it.

## Theorems

* `mutexUnlock_frame`: Unlocking, on any wait lists.
* `mutexUnlock_lists`: Unlocking, on whole wait lists.
* `unlockLoop_lists`: Unlocking every mutex of a task.
* `wakeLoop_mono`, `mutexUnlock_mono`, `unlockLoop_mono`: More turns make no difference.
-/

namespace Mirros

/-- The nodes of a ring are a closed set. -/
theorem closedKind_ring (links : Links TaskNode) (h : TaskNode) (xs : List TaskNode)
    (k : NodeKind) (hr : Ring links h xs) (hk : ∀ a ∈ h :: xs, a.kind = k) :
    ClosedKind links k { a | a ∈ h :: xs } :=
  ⟨fun a ha => ⟨ring_next_mem links h a xs hr ha, ring_pre_mem links h a xs hr ha⟩, hk⟩

section Own

variable (links : Links TaskNode) (tracked : Nat → Prop) (owns : Nat → List Nat)
  (h : OwnLists links tracked owns) (t m : Nat) (ht : tracked t)

include h ht

theorem closedKind_owns : ClosedKind links .own
    { a | a ∈ TaskNode.mutexGet t :: (owns t).map TaskNode.mutexTask } := by
  refine closedKind_ring links _ _ .own (hangs_ring _ _ _ _ _ h t ht) (fun a ha => ?_)
  rcases List.mem_cons.mp ha with rfl | ha
  · rfl
  · rcases List.mem_map.mp ha with ⟨m, _, rfl⟩
    rfl

/-- Giving a mutex back. -/
theorem ownLists_put (hm : m ∈ owns t) :
    OwnLists (listDel links (.mutexTask m)) tracked
        (Function.update owns t ((owns t).erase m)) ∧
      Only .own links (listDel links (.mutexTask m)) ∧
      isListEmpty links (.mutexTask m) = false ∧
      (listDel links (.mutexTask m)).next (.mutexTask m) = links.next (.mutexTask m) := by
  have hin : TaskNode.mutexTask m ∈ (owns t).map TaskNode.mutexTask := List.mem_map_of_mem hm
  have hne := ring_neighbours_ne links _ _ _ (hangs_ring _ _ _ _ _ h t ht) hin
  refine ⟨?_, (only_listDel links .own _ (closedKind_owns links tracked owns h t ht) _
    (List.mem_cons_of_mem _ hin)).1, ?_, listDel_next_self links _ hne.2⟩
  · rw [listDel_eq_link]
    exact hangs_remove links _ _ tracked owns h mutexGet_injective t ht m mutexTask_injective hm
  · rw [isListEmpty, decide_eq_false_iff_not]
    exact hne.1

/-- Getting a mutex that nobody has. -/
theorem ownLists_get (hm : ∀ u, tracked u → m ∉ owns u) :
    OwnLists (listAddTail links (.mutexGet t) (.mutexTask m)) tracked
        (Function.update owns t (owns t ++ [m])) ∧
      Only .own links (listAddTail links (.mutexGet t) (.mutexTask m)) := by
  have hclosed := closedKind_owns links tracked owns h t ht
  refine ⟨?_, fun n hn => ?_⟩
  · rw [listAddTail_eq_link]
    exact hangs_append links _ _ tracked owns h mutexGet_injective t ht m mutexTask_injective
      (fun _ hc => by cases hc) hm
  · -- A node of another kind is neither on the list nor the new node.
    refine listAddTail_off links _ n _ (hangs_ring _ _ _ _ _ h t ht)
      (fun hc => hn (hclosed.kind n hc)) _ ?_
    rintro rfl
    exact hn rfl

end Own

/-- The kinds of nodes that unlocking edits. -/
def unlockKinds : List NodeKind :=
  [.sched, .wait, .own]

section Unlock

variable (pub : List Nat) (S : Set TaskNode) (tracked : Nat → Prop) (owns : Nat → List Nat)
  (t m fuel : Nat) (k : MutexSys) (s : Sched)

/-- The end of `mutex_unlock`, after the waiters were woken up. -/
theorem mutexUnlock_eq (hown : OwnLists k.sched.links tracked owns) (ht : tracked t)
    (hm : m ∈ owns t) (hcount : k.count m ≠ 0) (hw : Woke [.sched, .wait] k.sched s)
    (hrun : MutexSys.wakeLoop fuel k.sched m (k.sched.links.next (.mutexWait m)) = some s) :
    MutexSys.mutexUnlock fuel k m = some
      { sched := { s with links := listDel s.links (.mutexTask m) }
        count := Function.update k.count m 0 } ∧
      OwnLists (listDel s.links (.mutexTask m)) tracked
        (Function.update owns t ((owns t).erase m)) ∧
      Only .own s.links (listDel s.links (.mutexTask m)) ∧
      Woke unlockKinds k.sched { s with links := listDel s.links (.mutexTask m) } ∧
      (listDel s.links (.mutexTask m)).next (.mutexTask m) =
        k.sched.links.next (.mutexTask m) := by
  have hsame : ∀ n : TaskNode, n.kind = .own →
      s.links.next n = k.sched.links.next n ∧ s.links.pre n = k.sched.links.pre n := by
    intro n hn
    refine hw.links n ?_
    rw [hn]
    decide
  -- Waking up has left the lists of the owners alone.
  have hown' : OwnLists s.links tracked owns :=
    hangs_congr _ _ _ _ _ hown _ (fun _ _ => hsame _ rfl) (fun _ _ _ _ => hsame _ rfl)
  rcases ownLists_put s.links tracked owns hown' t m ht hm with ⟨hput, honly, hempty, hnext⟩
  refine ⟨?_, hput, honly, ⟨fun n hn => ?_, hw.current, hw.idle, hw.pidMap, hw.scheduleRunning,
    hw.inInterrupt, hw.task⟩, hnext.trans (hsame (.mutexTask m) rfl).1⟩
  · unfold MutexSys.mutexUnlock
    simp only [hcount, if_false, hrun, Option.bind_eq_bind, Option.bind_some, hempty,
      Bool.not_false, if_true, MutexSys.setLinks, Option.pure_def]
  · have hno : n.kind ≠ .own := by
      intro hc
      rw [hc] at hn
      exact hn (by decide)
    rw [(honly n hno).1, (honly n hno).2]
    exact hw.links n (fun hc => hn (by
      simp only [unlockKinds, List.mem_cons, List.not_mem_nil, or_false] at hc ⊢
      tauto))

theorem mutexUnlock_frame (k' : MutexSys) (hinv : SchedInv ⟨k.sched, pub⟩)
    (hS : ClosedKind k.sched.links .wait S) (hmS : .mutexWait m ∈ S) (ha : Awake k.sched pub S)
    (hown : OwnLists k.sched.links tracked owns) (ht : tracked t) (hm : m ∈ owns t)
    (hcount : k.count m ≠ 0) (hrun : MutexSys.mutexUnlock fuel k m = some k') :
    SchedInv ⟨k'.sched, pub⟩ ∧ Woke unlockKinds k.sched k'.sched ∧
      ClosedKind k'.sched.links .wait S ∧
      OwnLists k'.sched.links tracked (Function.update owns t ((owns t).erase m)) ∧
      k'.count = Function.update k.count m 0 := by
  have hloop : ∃ s, MutexSys.wakeLoop fuel k.sched m (k.sched.links.next (.mutexWait m)) =
      some s := by
    unfold MutexSys.mutexUnlock at hrun
    simp only [hcount, if_false, Option.bind_eq_bind] at hrun
    rcases Option.bind_eq_some_iff.mp hrun with ⟨s, hs, _⟩
    exact ⟨s, hs⟩
  rcases hloop with ⟨s, hs⟩
  rcases wakeLoop_frame pub S m fuel k.sched s _ hinv hS (hS.closed _ hmS).1 ha hs with
    ⟨hinv', hw, hS'⟩
  rcases mutexUnlock_eq tracked owns t m fuel k s hown ht hm hcount hw hs with
    ⟨heq, hown', honly, hw', _⟩
  rw [heq, Option.some.injEq] at hrun
  subst hrun
  exact ⟨schedInv_only s pub .own _ (by decide) honly hinv', hw',
    closedKind_only _ _ _ hS' .own _ (by decide) honly, hown', rfl⟩

theorem mutexUnlock_lists (mutexes : Nat → Prop) (waiters : Nat → List Nat)
    (hinv : SchedInv ⟨k.sched, pub⟩) (hS : ClosedKind k.sched.links .wait S)
    (hmS : .mutexWait m ∈ S) (ha : Awake k.sched pub S)
    (hown : OwnLists k.sched.links tracked owns) (ht : tracked t) (hm : m ∈ owns t)
    (hcount : k.count m ≠ 0) (hlists : WaitLists k.sched.links mutexes waiters)
    (hmm : mutexes m) (hfuel : (waiters m).length < fuel) :
    ∃ k', MutexSys.mutexUnlock fuel k m = some k' ∧ SchedInv ⟨k'.sched, pub⟩ ∧
      Woke unlockKinds k.sched k'.sched ∧ ClosedKind k'.sched.links .wait S ∧
      OwnLists k'.sched.links tracked (Function.update owns t ((owns t).erase m)) ∧
      k'.count = Function.update k.count m 0 ∧
      k'.sched.links.next (.mutexTask m) = k.sched.links.next (.mutexTask m) ∧
      WaitLists k'.sched.links mutexes (Function.update waiters m []) ∧
      ∀ u, k'.sched.task u = wokenRecord (u ∈ waiters m) (k.sched.task u) := by
  rcases wakeLoop_lists pub S m mutexes hmm hmS _ fuel k.sched waiters hinv hS ha hlists rfl hfuel
    with ⟨s, hs, hinv', hw, hS', hlists', htask⟩
  rcases mutexUnlock_eq tracked owns t m fuel k s hown ht hm hcount hw hs with
    ⟨heq, hown', honly, hw', hnext⟩
  exact ⟨_, heq, schedInv_only s pub .own _ (by decide) honly hinv', hw',
    closedKind_only _ _ _ hS' .own _ (by decide) honly, hown', rfl, hnext,
    waitLists_only _ _ _ _ .own honly (by decide) hlists', htask⟩

end Unlock

/-- A walk that ends does the same with more turns to go. -/
theorem wakeLoop_mono (m fuel : Nat) : ∀ (fuel' : Nat) (s s' : Sched) (list : TaskNode),
    fuel ≤ fuel' → MutexSys.wakeLoop fuel s m list = some s' →
    MutexSys.wakeLoop fuel' s m list = some s' := by
  induction fuel with
  | zero =>
      intro fuel' s s' list _ hrun
      rw [MutexSys.wakeLoop] at hrun
      cases hrun
  | succ fuel ih =>
      intro fuel' s s' list hle hrun
      rcases fuel' with _ | fuel'
      · omega
      by_cases hend : list = .mutexWait m
      · rw [hend, wakeLoop_stop] at hrun ⊢
        exact hrun
      · cases list with
        | wait t =>
            rw [wakeLoop_wait] at hrun ⊢
            exact ih fuel' _ _ _ (by omega) hrun
        | _ => simp only [MutexSys.wakeLoop, hend, if_false, reduceCtorEq] at hrun

theorem mutexUnlock_mono (k k' : MutexSys) (m fuel fuel' : Nat) (hle : fuel ≤ fuel')
    (hrun : MutexSys.mutexUnlock fuel k m = some k') :
    MutexSys.mutexUnlock fuel' k m = some k' := by
  unfold MutexSys.mutexUnlock at hrun ⊢
  by_cases h0 : k.count m = 0
  · rw [if_pos h0] at hrun ⊢
    exact hrun
  · rw [if_neg h0] at hrun ⊢
    rcases Option.bind_eq_some_iff.mp hrun with ⟨s, hs, hrest⟩
    exact Option.bind_eq_some_iff.mpr ⟨s, wakeLoop_mono m fuel fuel' _ _ _ hle hs, hrest⟩

theorem unlockLoop_mono (t fuel : Nat) : ∀ (fuel' : Nat) (k k' : MutexSys) (list : TaskNode),
    fuel ≤ fuel' → MutexSys.unlockLoop fuel k t list = some k' →
    MutexSys.unlockLoop fuel' k t list = some k' := by
  induction fuel with
  | zero =>
      intro fuel' k k' list _ hrun
      rw [MutexSys.unlockLoop] at hrun
      cases hrun
  | succ fuel ih =>
      intro fuel' k k' list hle hrun
      rcases fuel' with _ | fuel'
      · omega
      by_cases hend : list = .mutexGet t
      · simp only [MutexSys.unlockLoop, hend, if_true] at hrun ⊢
        exact hrun
      · cases list with
        | mutexTask m =>
            simp only [MutexSys.unlockLoop, hend, if_false] at hrun ⊢
            rcases Option.bind_eq_some_iff.mp hrun with ⟨k1, hk1, hrest⟩
            exact Option.bind_eq_some_iff.mpr ⟨k1, mutexUnlock_mono k k1 m fuel fuel' (by omega) hk1,
              ih fuel' _ _ _ (by omega) hrest⟩
        | _ => simp only [MutexSys.unlockLoop, hend, if_false, reduceCtorEq] at hrun

/-- A walk that unlocks every mutex of a task empties its list and those of the
    waiters, and comes back. -/
theorem unlockLoop_lists (pub : List Nat) (S : Set TaskNode) (tracked mutexes : Nat → Prop)
    (t : Nat) (ht : tracked t) : ∀ (ms : List Nat) (fuel : Nat) (k : MutexSys)
    (owns waiters : Nat → List Nat), SchedInv ⟨k.sched, pub⟩ →
    ClosedKind k.sched.links .wait S → Awake k.sched pub S →
    OwnLists k.sched.links tracked owns → WaitLists k.sched.links mutexes waiters →
    owns t = ms →
    (∀ m ∈ ms, mutexes m ∧ .mutexWait m ∈ S ∧ k.count m ≠ 0 ∧
      (waiters m).length + ms.length < fuel) → ms.length < fuel →
    ∃ k', MutexSys.unlockLoop fuel k t (k.sched.links.next (.mutexGet t)) = some k' ∧
      SchedInv ⟨k'.sched, pub⟩ ∧ Woke unlockKinds k.sched k'.sched ∧
      ClosedKind k'.sched.links .wait S ∧
      OwnLists k'.sched.links tracked (Function.update owns t []) ∧
      (∀ m, k'.count m = if m ∈ ms then 0 else k.count m) ∧
      WaitLists k'.sched.links mutexes (fun m => if m ∈ ms then [] else waiters m) ∧
      ∀ u, k'.sched.task u = wokenRecord (∃ m ∈ ms, u ∈ waiters m) (k.sched.task u) := by
  intro ms
  induction ms with
  | nil =>
      intro fuel k owns waiters hinv hS _ hown hlists hms _ hfuel
      have hring := hangs_ring _ _ _ _ _ hown t ht
      rw [hms, List.map_nil] at hring
      have hnext := ring_next_head _ _ _ hring
      rcases fuel with _ | fuel
      · exact absurd hfuel (Nat.not_lt_zero _)
      · refine ⟨k, ?_, hinv, woke_refl _ _, hS, ?_, fun m => ?_, ?_, fun u => ?_⟩
        · rw [hnext, List.headD_nil]
          simp only [MutexSys.unlockLoop, if_true]
        · rw [← hms, Function.update_eq_self]
          exact hown
        · rw [if_neg List.not_mem_nil]
        · simp only [List.not_mem_nil, if_false]
          exact hlists
        · rw [wokenRecord_false _ _ (by simp only [List.not_mem_nil, false_and, exists_false,
            not_false_eq_true])]
  | cons m ms ih =>
      intro fuel k owns waiters hinv hS ha hown hlists hms hall hfuel
      have hring := hangs_ring _ _ _ _ _ hown t ht
      have hnd := hangs_nodup _ _ _ _ _ hown t ht
      rw [hms] at hnd
      have hmnot := (List.nodup_cons.mp hnd).1
      rw [hms, List.map_cons] at hring
      have hnext := ring_next_head _ _ _ hring
      rw [List.headD_cons] at hnext
      rcases hall m List.mem_cons_self with ⟨hmm, hmS, hcount, hlen⟩
      rcases fuel with _ | fuel
      · exact absurd hfuel (Nat.not_lt_zero _)
      rw [List.length_cons] at hlen hfuel
      rcases mutexUnlock_lists pub S tracked owns t m fuel k mutexes waiters hinv hS hmS ha hown ht
        (hms ▸ List.mem_cons_self) hcount hlists hmm (by omega) with
        ⟨k1, hrun1, hinv1, hw1, hS1, hown1, hcount1, hnext1, hlists1, htask1⟩
      rw [hms, List.erase_cons_head] at hown1
      -- The mutex is off the list, and its pointer goes where the one of the head goes.
      have hgo : k1.sched.links.next (.mutexTask m) = k1.sched.links.next (.mutexGet t) := by
        have hring1 := hangs_ring _ _ _ _ _ hown1 t ht
        rw [Function.update_self] at hring1
        rw [hnext1, ring_next_head _ _ _ hring1]
        exact (ring_split _ _ _ [] _ hring).2
      -- What is left is as it was.
      have hrest : ∀ m' ∈ ms, mutexes m' ∧ .mutexWait m' ∈ S ∧ k1.count m' ≠ 0 ∧
          (Function.update waiters m [] m').length + ms.length < fuel := by
        intro m' hm'
        rcases hall m' (List.mem_cons_of_mem m hm') with ⟨h1, h2, h3, h4⟩
        have hne : m' ≠ m := fun hc => hmnot (hc ▸ hm')
        rw [List.length_cons] at h4
        refine ⟨h1, h2, ?_, ?_⟩
        · rw [hcount1, Function.update_of_ne hne]
          exact h3
        · rw [Function.update_of_ne hne]
          omega
      rcases ih fuel k1 _ _ hinv1 hS1 (awake_woke _ _ pub S ha _ hw1) hown1 hlists1
        (Function.update_self _ _ _) hrest (by omega) with
        ⟨k', hrun, hinv', hw', hS', hown', hcount', hlists', htask'⟩
      refine ⟨k', ?_, hinv', woke_trans _ _ _ _ hw1 hw', hS', ?_, fun m' => ?_, ?_, fun u => ?_⟩
      · rw [hnext]
        simp only [MutexSys.unlockLoop, reduceCtorEq, if_false, hrun1, Option.bind_eq_bind,
          Option.bind_some, hgo]
        exact hrun
      · rw [Function.update_idem] at hown'
        exact hown'
      · rw [hcount', hcount1, Function.update_apply]
        by_cases hm' : m' = m
        · simp only [hm', hmnot, if_false, if_true, List.mem_cons, true_or]
        · simp only [hm', if_false, List.mem_cons, false_or]
      · refine hangs_agree _ _ _ _ _ hlists' _ (fun m' _ => ?_)
        rw [Function.update_apply]
        by_cases hm' : m' = m
        · simp only [hm', hmnot, if_false, if_true, List.mem_cons, true_or]
        · simp only [hm', if_false, List.mem_cons, false_or]
      · -- A waiter is woken up with this mutex or with a later one.
        have hlater : (∃ m' ∈ ms, u ∈ Function.update waiters m [] m') ↔
            ∃ m' ∈ ms, u ∈ waiters m' := by
          refine exists_congr (fun m' => and_congr_right (fun hm' => ?_))
          rw [Function.update_of_ne (show m' ≠ m from fun hc => hmnot (hc ▸ hm'))]
        rw [htask', htask1]
        refine wokenRecord_or _ _ _ _ ?_
        rw [hlater]
        simp only [List.mem_cons, exists_eq_or_imp]

end Mirros
