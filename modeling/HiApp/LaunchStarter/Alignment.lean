import HiApp.LaunchStarter.Book
import HiApp.LaunchStarter.History
import HiApp.LaunchStarter.Process

/-!
# The two lists of a dispatcher

The sort looks up a class in `mClsAllTasks` and takes its index for one of `mAllTasks`.
`addTask` appends to both, and `start` puts the result of the sort in place of the second.
-/

namespace HiApp.LaunchStarter

open Runs

variable {δ τ κ : Type*}

/-- What `start` hands to `getSortResult`. -/
def State.sortCall (s : State τ κ) : SortCall τ κ where
  isSend t := (s.vars t).mIsSend
  originTasks := s.mAllTasks
  clsLaunchTasks := s.mClsAllTasks

namespace Launch

/-- Every class is that of the task at its index. -/
def Aligned (L : Launch τ κ) (s : State τ κ) : Prop :=
  s.mClsAllTasks = s.mAllTasks.map fun t ↦ (L.decl t).cls

section

variable [DecidableEq κ] (L : Launch τ κ)

/-- The sort throws, or `sNewTasksHigh` is empty and the order of the sort has every class
where it is: first the tasks that others depend on, then those to run as soon as possible and
then the rest, each in topological order. -/
def KeepsClasses (s : State τ κ) : Prop :=
  ∀ dependSet indexList, L.analyse s.sortCall = .ok (dependSet, indexList) →
    s.sNewTasksHigh = [] ∧
      ((L.resultIndices s.mAllTasks dependSet indexList).filterMap (s.mAllTasks[·]?)).map
        (fun t ↦ (L.decl t).cls) = s.mAllTasks.map fun t ↦ (L.decl t).cls

variable [DecidableEq δ] [DecidableEq τ]

/-- When a call of `start` comes to the sort of dispatcher `d`, its lists are aligned. -/
def SortsAligned (d : δ) (p : Process δ τ κ) : ProcessAction δ τ → Prop
  | .start d' => d' = d → p.onMain = none → (p.dispatcher d).mAllTasks ≠ [] →
      L.Aligned (p.view d)
  | _ => True

instance (s : State τ κ) : Decidable (L.Aligned s) := inferInstanceAs (Decidable (_ = _))

instance decidableSortsAligned (d : δ) (p : Process δ τ κ) :
    ∀ action, Decidable (L.SortsAligned d p action)
  | .start d' => inferInstanceAs (Decidable (d' = d → p.onMain = none →
      (p.dispatcher d).mAllTasks ≠ [] → L.Aligned (p.view d)))
  | .addTask _ _ | .executeTask _ _ | .main | .pool _ | .call _ => isTrue trivial

/-- A call of `start` that comes to the sort keeps the classes when another call follows it. -/
def KeepsUntilNext (d : δ) (actions : List (ProcessAction δ τ)) : Prop :=
  ∀ pre mid p, pre ++ .start d :: (mid ++ [.start d]) <+: actions →
    run L.stepProcess L.newProcess pre = some p → (p.dispatcher d).mAllTasks ≠ [] →
      L.KeepsClasses (p.view d)

end

/-! ## The lists in a step -/

/-- The lists are as before. -/
structure SameLists (s s' : State τ κ) : Prop where
  mAllTasks : s'.mAllTasks = s.mAllTasks
  mClsAllTasks : s'.mClsAllTasks = s.mClsAllTasks

namespace SameLists

variable {L : Launch τ κ} {s s' s'' : State τ κ} {t : τ}

theorem trans (h : SameLists s s') (h' : SameLists s' s'') : SameLists s s'' :=
  ⟨h'.mAllTasks.trans h.mAllTasks, h'.mClsAllTasks.trans h.mClsAllTasks⟩

variable [DecidableEq τ]

theorem markTaskDone : SameLists s (L.markTaskDone s t) := by
  unfold Launch.markTaskDone
  split
  · simp only
    split
    · exact ⟨rfl, rfl⟩
    · exact ⟨rfl, rfl⟩
  · exact ⟨rfl, rfl⟩

theorem satisfyChildren : SameLists s (L.satisfyChildren s t) := by
  rw [satisfyChildren_eq]
  exact ⟨rfl, rfl⟩

theorem send : SameLists s (L.send s t) := by
  have hsent : SameLists s (if L.skipped t then L.markTaskDone s t else L.sentTaskReal s t) := by
    split
    · exact markTaskDone
    · unfold sentTaskReal
      split
      · exact ⟨rfl, rfl⟩
      · exact ⟨rfl, rfl⟩
  exact ⟨hsent.mAllTasks, hsent.mClsAllTasks⟩

omit [DecidableEq τ] in
theorem executeTask : SameLists s (L.executeTask s t) := by
  unfold Launch.executeTask
  dsimp only
  split
  · exact ⟨rfl, rfl⟩
  · exact ⟨rfl, rfl⟩

theorem stepRunnable {job : Job τ} {stage : Option Stage}
    (hstep : L.stepRunnable s job = some (s', stage)) : SameLists s s' := by
  rcases stepRunnable_cases hstep with ⟨-, rfl, -⟩ | ⟨-, -, rfl, -⟩ | ⟨-, -, rfl, -⟩ |
    ⟨-, -, rfl, -⟩ | ⟨-, rfl, -⟩
  · exact ⟨rfl, rfl⟩
  · exact ⟨rfl, rfl⟩
  · have hchildren : SameLists (s.setFinished job.task)
        (L.satisfyChildren (s.setFinished job.task) job.task) := satisfyChildren
    exact ⟨hchildren.mAllTasks, hchildren.mClsAllTasks⟩
  · exact ⟨rfl, rfl⟩
  · exact markTaskDone

theorem stepMain (hstep : L.stepMain s = some s') : SameLists s s' := by
  rcases stepMain_cases hstep with ⟨rest, -, rfl⟩ | ⟨-, rfl⟩ | ⟨u, rest, -, rfl⟩ | ⟨-, rfl⟩ |
    ⟨u, rest, -, rfl⟩ | ⟨job, rest, s₁, stage, -, hrun, rfl⟩
  · exact ⟨rfl, rfl⟩
  · exact ⟨rfl, rfl⟩
  · have hsend : SameLists s (L.send s u) := send
    exact ⟨hsend.mAllTasks, hsend.mClsAllTasks⟩
  · exact ⟨rfl, rfl⟩
  · exact ⟨rfl, rfl⟩
  · have hjob := stepRunnable hrun
    exact ⟨hjob.mAllTasks, hjob.mClsAllTasks⟩

end SameLists

variable {L : Launch τ κ} {s : State τ κ}

theorem Aligned.of_sameLists {s' : State τ κ} (hsame : SameLists s s') :
    L.Aligned s' ↔ L.Aligned s := by
  rw [Aligned, Aligned, hsame.mAllTasks, hsame.mClsAllTasks]

/-- A longer list of tasks has more classes. -/
theorem map_append_eq_map_iff {α β : Type*} {f : α → β} {high own l : List α}
    (hlength : own.length = l.length) :
    l.map f = (high ++ own).map f ↔ high = [] ∧ own.map f = l.map f := by
  constructor
  · intro h
    have hlengths := congrArg List.length h
    rw [List.length_map, List.length_map, List.length_append] at hlengths
    have hnil : high = [] := List.eq_nil_of_length_eq_zero (by omega)
    rw [hnil, List.nil_append] at h
    exact ⟨hnil, h.symm⟩
  · rintro ⟨rfl, h⟩
    exact h.symm

variable [DecidableEq κ]

theorem lt_of_analyse {call : SortCall τ κ} {dependSet indexList : List ℕ}
    (hcall : L.analyse call = .ok (dependSet, indexList)) :
    ∀ index ∈ indexList, index < call.originTasks.length := by
  unfold analyse at hcall
  split at hcall
  · cases hcall
  · rename_i graph hgraph
    split at hcall
    · cases hcall
    · rename_i htopo
      obtain ⟨rfl, rfl⟩ := Prod.mk.inj (Except.ok.inj hcall)
      obtain ⟨hperm, -⟩ := Graph.topologicalSort_spec (graph_closed hgraph) htopo
      exact fun index hindex ↦ List.mem_range.mp (hperm.mem_iff.mp hindex)

/-- The sort leaves the lists aligned just when it keeps the classes. -/
theorem aligned_sort_iff (haligned : L.Aligned s) {high tasks : List τ}
    (hsort : L.getSortResult (fun t ↦ (s.vars t).mIsSend) s.sNewTasksHigh s.mAllTasks
      s.mClsAllTasks = .ok (high, tasks)) :
    s.mClsAllTasks = tasks.map (fun t ↦ (L.decl t).cls) ↔ L.KeepsClasses s := by
  obtain ⟨⟨dependSet, indexList⟩, hcall⟩ :=
    analyse_of_getSortResult (c := s.sortCall) hsort
  have hbound : ∀ index ∈ indexList, index < s.mAllTasks.length := lt_of_analyse hcall
  have hsorted : ∀ sNewTasksHigh, L.getSortResult (fun t ↦ (s.vars t).mIsSend) sNewTasksHigh
      s.mAllTasks s.mClsAllTasks =
        .ok (L.getResultTasks sNewTasksHigh s.mAllTasks dependSet indexList) := by
    intro sNewTasksHigh
    have hanalyse := getSortResult_eq_analyse (L := L) sNewTasksHigh s.sortCall
    rw [hcall] at hanalyse
    exact hanalyse
  have htasks : tasks = s.sNewTasksHigh ++
      (L.resultIndices s.mAllTasks dependSet indexList).filterMap (s.mAllTasks[·]?) := by
    rw [hsorted, getResultTasks_append] at hsort
    rw [← getResultTasks_eq hbound, ← (Prod.mk.inj (Except.ok.inj hsort)).2]
  have hlength : ((L.resultIndices s.mAllTasks dependSet indexList).filterMap
      (s.mAllTasks[·]?)).length = s.mAllTasks.length := by
    rw [← getResultTasks_eq hbound]
    exact (getSortResult_perm (hsorted [])).length_eq
  rw [haligned, htasks, map_append_eq_map_iff hlength]
  constructor
  · intro hkeeps dependSet' indexList' hcall'
    obtain ⟨rfl, rfl⟩ := Prod.mk.inj (Except.ok.inj (hcall.symm.trans hcall'))
    exact hkeeps
  · intro hkeeps
    exact hkeeps dependSet indexList hcall

theorem aligned_start_iff (haligned : L.Aligned s) (hne : s.mAllTasks ≠ []) :
    L.Aligned (L.start s) ↔ L.KeepsClasses s := by
  obtain ⟨hstart, hcases⟩ | ⟨-, high, tasks, hsort, hcases⟩ := start_cases L s
  · obtain ⟨e, hthrows⟩ := hcases.resolve_left hne
    rw [hstart]
    apply iff_of_true haligned
    intro dependSet indexList hcall
    have hanalyse := getSortResult_eq_analyse (L := L) s.sNewTasksHigh s.sortCall
    rw [hcall] at hanalyse
    cases hthrows.symm.trans hanalyse
  · have hlists : (L.start s).mAllTasks = tasks ∧ (L.start s).mClsAllTasks = s.mClsAllTasks := by
      rcases hcases with ⟨-, hstart⟩ | ⟨-, hstart⟩
      · rw [hstart]
        exact ⟨rfl, rfl⟩
      · rw [hstart]
        exact ⟨rfl, rfl⟩
    rw [Aligned, hlists.1, hlists.2]
    exact aligned_sort_iff haligned hsort

theorem mAllTasks_start_ne_nil (hne : s.mAllTasks ≠ []) : (L.start s).mAllTasks ≠ [] := by
  obtain ⟨hstart, -⟩ | ⟨-, high, tasks, hsort, hcases⟩ := start_cases L s
  · rw [hstart]
    exact hne
  · have htasks : tasks ≠ [] := by
      have hperm := getSortResult_perm_append (c := s.sortCall) hsort
      intro hnil
      rw [hnil] at hperm
      exact hne (List.append_eq_nil_iff.mp hperm.nil_eq.symm).2
    rcases hcases with ⟨-, hstart⟩ | ⟨-, hstart⟩
    · rw [hstart]
      exact htasks
    · rw [hstart]
      exact htasks

variable [DecidableEq τ]

theorem aligned_addTask_iff {t : τ} : L.Aligned (L.addTask s t) ↔ L.Aligned s := by
  rw [addTask_eq, Aligned, Aligned, List.map_append, List.map_singleton, List.append_left_inj]

/-! ## The lists in a process -/

variable [DecidableEq δ] {p q : Process δ τ κ} {action : ProcessAction δ τ} {d : δ}

omit [DecidableEq κ] in
theorem sameLists_store_self (s : State τ κ) : SameLists s ((p.store d s).view d) := by
  have hdispatcher : (p.store d s).dispatcher d = s := Function.update_self ..
  have hall := congrArg State.mAllTasks hdispatcher
  have hcls := congrArg State.mClsAllTasks hdispatcher
  exact ⟨hall, hcls⟩

omit [DecidableEq κ] in
theorem sameLists_store_of_ne {d' : δ} (hd : d ≠ d') (s : State τ κ) :
    SameLists (p.view d) ((p.store d' s).view d) := by
  have hdispatcher : (p.store d' s).dispatcher d = p.dispatcher d :=
    Function.update_of_ne hd ..
  have hall := congrArg State.mAllTasks hdispatcher
  have hcls := congrArg State.mClsAllTasks hdispatcher
  exact ⟨hall, hcls⟩

omit [DecidableEq κ] in
theorem sameLists_store {d' : δ} {s : State τ κ} (hsame : SameLists (p.view d') s) (d : δ) :
    SameLists (p.view d) ((p.store d' s).view d) := by
  by_cases hd : d = d'
  · subst hd
    exact hsame.trans (sameLists_store_self s)
  · exact sameLists_store_of_ne hd s

/-- Only `addTask` and `start` of a dispatcher change its lists. -/
theorem sameLists_step (hstep : L.stepProcess p action = some q) (d : δ) :
    (action = .start d ∧ p.onMain = none ∧ SameLists (L.start (p.view d)) (q.view d)) ∨
      (∃ t, SameLists (L.addTask (p.view d) t) (q.view d)) ∨
      SameLists (p.view d) (q.view d) := by
  cases action with
  | addTask d' t =>
      obtain rfl := Option.some.inj hstep
      by_cases hd : d = d'
      · subst hd
        exact .inr (.inl ⟨t, sameLists_store_self _⟩)
      · exact .inr (.inr (sameLists_store_of_ne hd _))
  | start d' =>
      obtain ⟨hmain, hq⟩ := Option.ite_none_right_eq_some.mp hstep
      obtain rfl := Option.some.inj hq
      by_cases hd : d = d'
      · subst hd
        have hsame := sameLists_store_self (p := p) (d := d) (L.start (p.view d))
        exact .inl ⟨rfl, hmain, hsame.mAllTasks, hsame.mClsAllTasks⟩
      · have hsame := sameLists_store_of_ne (p := p) hd (L.start (p.view d'))
        exact .inr (.inr ⟨hsame.mAllTasks, hsame.mClsAllTasks⟩)
  | executeTask d' t =>
      obtain rfl := Option.some.inj hstep
      exact .inr (.inr (sameLists_store .executeTask d))
  | main =>
      simp only [stepProcess] at hstep
      split at hstep
      · cases hstep
      · rename_i d' hmain
        obtain ⟨s, hs, rfl⟩ := Option.map_eq_some_iff.mp hstep
        have hsame := sameLists_store (SameLists.stepMain hs) d
        exact .inr (.inr ⟨hsame.mAllTasks, hsame.mClsAllTasks⟩)
  | pool i =>
      obtain ⟨d', job, s, stage, p₁, p₂, hrun, -, rfl⟩ := stepProcessPool_cases hstep
      have hjob := SameLists.stepRunnable hrun
      exact .inr (.inr (sameLists_store ⟨hjob.mAllTasks, hjob.mClsAllTasks⟩ d))
  | call t =>
      simp only [stepProcess] at hstep
      split at hstep
      · cases hstep
      · rename_i d' hcall
        obtain rfl := Option.some.inj hstep
        have hchildren : SameLists ((p.view d').setFinished t) (L.call (p.view d') t) :=
          SameLists.satisfyChildren
        exact .inr (.inr (sameLists_store ⟨hchildren.mAllTasks, hchildren.mClsAllTasks⟩ d))

/-- A step that is no sort of the dispatcher keeps its lists aligned, or misaligned. -/
theorem aligned_step_iff (hstep : L.stepProcess p action = some q)
    (hsort : action = .start d → (p.dispatcher d).mAllTasks = []) :
    L.Aligned (q.view d) ↔ L.Aligned (p.view d) := by
  obtain ⟨hstart, -, hsame⟩ | ⟨t, hsame⟩ | hsame := sameLists_step hstep d
  · have hstay : L.start (p.view d) = p.view d := if_pos (hsort hstart)
    rw [hstay] at hsame
    exact Aligned.of_sameLists hsame
  · rw [Aligned.of_sameLists hsame, aligned_addTask_iff]
  · exact Aligned.of_sameLists hsame

theorem aligned_step_start_iff (hstep : L.stepProcess p (.start d) = some q)
    (haligned : L.Aligned (p.view d)) (hne : (p.dispatcher d).mAllTasks ≠ []) :
    L.Aligned (q.view d) ↔ L.KeepsClasses (p.view d) := by
  obtain ⟨-, hq⟩ := Option.ite_none_right_eq_some.mp hstep
  obtain rfl := Option.some.inj hq
  have hsame := sameLists_store_self (p := p) (d := d) (L.start (p.view d))
  have hiff : L.Aligned ((p.storeMain d (L.start (p.view d))).view d) ↔
      L.Aligned (L.start (p.view d)) :=
    Aligned.of_sameLists ⟨hsame.mAllTasks, hsame.mClsAllTasks⟩
  rw [hiff]
  exact aligned_start_iff haligned hne

theorem mAllTasks_step_ne_nil (hstep : L.stepProcess p action = some q)
    (hne : (p.dispatcher d).mAllTasks ≠ []) : (q.dispatcher d).mAllTasks ≠ [] := by
  obtain ⟨-, -, hsame⟩ | ⟨t, hsame⟩ | hsame := sameLists_step hstep d
  · have hstart := mAllTasks_start_ne_nil (L := L) (s := p.view d) hne
    rw [← hsame.mAllTasks] at hstart
    exact hstart
  · have hadded := hsame.mAllTasks
    rw [addTask_eq] at hadded
    intro hnil
    exact List.concat_ne_nil _ _ (hadded.symm.trans hnil)
  · intro hnil
    exact hne (hsame.mAllTasks.symm.trans hnil)

/-- Lists that are not aligned stay so until the next sort. -/
theorem not_sortsAligned_of_not_aligned {mid : List (ProcessAction δ τ)}
    (hrun : run L.stepProcess p (mid ++ [.start d]) = some q) (hnot : ¬ L.Aligned (p.view d))
    (hne : (p.dispatcher d).mAllTasks ≠ []) :
    ¬ StepsMeet L.stepProcess (L.SortsAligned d) p (mid ++ [.start d]) := by
  induction mid generalizing p with
  | nil =>
      intro haligned
      obtain ⟨u, hstep, -⟩ := Option.bind_eq_some_iff.mp hrun
      obtain ⟨hmain, -⟩ := Option.ite_none_right_eq_some.mp hstep
      exact hnot ((stepsMeet_cons.mp haligned).1 rfl hmain hne)
  | cons action mid ih =>
      intro haligned
      obtain ⟨u, hstep, hrest⟩ := Option.bind_eq_some_iff.mp hrun
      obtain ⟨hhead, htail⟩ := stepsMeet_cons.mp haligned
      have hother : action ≠ .start d := by
        rintro rfl
        obtain ⟨hmain, -⟩ := Option.ite_none_right_eq_some.mp hstep
        exact hnot (hhead rfl hmain hne)
      apply ih hrest _ (mAllTasks_step_ne_nil hstep hne) (htail u hstep)
      rw [aligned_step_iff hstep fun hsort ↦ absurd hsort hother]
      exact hnot

theorem aligned_of_keepsUntilNext {actions pre : List (ProcessAction δ τ)}
    (hkeeps : L.KeepsUntilNext d actions) (hpre : pre ++ [.start d] <+: actions)
    (hrun : run L.stepProcess L.newProcess pre = some p) : L.Aligned (p.view d) := by
  have hmeets : StepsMeet L.stepProcess (fun u action ↦ action = .start d →
      (u.dispatcher d).mAllTasks ≠ [] → L.KeepsClasses (u.view d)) L.newProcess pre := by
    rintro front _ ⟨mid, rfl⟩ u hu rfl hne
    apply hkeeps front mid u _ hu hne
    rwa [List.append_assoc, List.append_assoc, List.singleton_append] at hpre
  have hnew : L.Aligned ((L.newProcess : Process δ τ κ).view d) := rfl
  refine run_invariant (I := fun u : Process δ τ κ ↦ L.Aligned (u.view d)) ?_ hnew hmeets hrun
  intro u action v haligned hkeep hstep
  by_cases hsort : action = .start d ∧ (u.dispatcher d).mAllTasks ≠ []
  · obtain ⟨rfl, hne⟩ := hsort
    exact (aligned_step_start_iff hstep haligned hne).mpr (hkeep rfl hne)
  · apply (aligned_step_iff hstep _).mpr haligned
    intro hstart
    by_contra hne
    exact hsort ⟨hstart, hne⟩

end Launch

/-- Two tasks that wait for nothing. -/
def unordered : Launch (Fin 2) (Fin 2) where
  decl t := { cls := t }
  getSimpleName c := toString c

/-- The second of two tasks is to run as soon as possible. -/
def secondSoon : Launch (Fin 2) (Fin 2) where
  decl t := { cls := t, needRunAsSoon := t = 1 }
  getSimpleName c := toString c

/-- Start with two tasks, and again once both are sent. -/
def startAgain : List (ProcessAction (Fin 1) (Fin 2)) :=
  [.addTask 0 0, .addTask 0 1, .start 0, .main, .main, .main, .main, .start 0]

end HiApp.LaunchStarter
