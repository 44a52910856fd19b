import HiApp.Lib.Debounce
import HiApp.Util.MainHandler

/-!
# The search box

The text watcher is told of the text once it has not changed for a while: every change takes a
runnable out of the queue of the main thread and posts it again.  A keyword, when one is set,
takes the place of the text.
-/

namespace HiApp.Search

open Runs Util

def DEBOUNCE_TRIGGER_DURATION : ℕ := 200

/-- Blanks are the space characters and the separators among the control characters. -/
def isWhitespace (c : Char) : Bool :=
  let n := c.toNat
  (9 ≤ n && n ≤ 13) || (28 ≤ n && n ≤ 32) || n = 160 || n = 5760 || (8192 ≤ n && n ≤ 8202) ||
    n = 8232 || n = 8233 || n = 8239 || n = 8287 || n = 12288

def trim (s : String) : List Char :=
  ((s.toList.dropWhile isWhitespace).reverse.dropWhile isWhitespace).reverse

def hasContent (s : String) : Bool := 0 < (trim s).length

/-- Which of the icons the style gives a text to; the others are not made. -/
structure Attrs where
  clearIcon : Bool
  keywordClearIcon : Bool
  deriving DecidableEq

/-- A view is `true` when it is visible, and `none` when there is none.  The listeners say
whether a click does something; `heard` has the calls of the watcher, and `changedAt` is the
time at which the text was last set. -/
structure HiSearchView (ρ : Type*) where
  handler : MainHandler ρ
  text : String := ""
  changedAt : ℕ
  simpleTextWatcher : Bool := false
  heard : List (DebouncedCall String) := []
  editText : Bool := true
  clearIcon : Option Bool
  searchIconHintContainer : Bool := true
  searchIcon : Bool := true
  hintTv : Bool := true
  keywordContainer : Option Bool := none
  clearIconListener : Bool := false
  editTextListener : Bool := false

namespace HiSearchView

variable {ρ : Type*}

def create (attrs : Attrs) (now : ℕ) : HiSearchView ρ where
  handler := { now }
  changedAt := now
  clearIcon := if attrs.clearIcon then some false else none

def changeVisibility (view : Option Bool) (show_ : Bool) : Option Bool := view.map fun _ ↦ show_

def toggleSearchViewsVisibility (showKeyword : Bool) (s : HiSearchView ρ) : HiSearchView ρ :=
  { s with
    editText := !showKeyword
    clearIcon := changeVisibility s.clearIcon false
    searchIconHintContainer := !showKeyword
    searchIcon := !showKeyword
    hintTv := !showKeyword
    keywordContainer := changeVisibility s.keywordContainer showKeyword }

def ensureKeywordContainer (s : HiSearchView ρ) : HiSearchView ρ :=
  { s with keywordContainer := some (s.keywordContainer.getD true) }

section

variable [DecidableEq ρ] (debounceRunnable : ρ)

def afterTextChanged (s : HiSearchView ρ) : HiSearchView ρ :=
  let s := { s with
    clearIcon := changeVisibility s.clearIcon (hasContent s.text)
    searchIconHintContainer := !hasContent s.text }
  if s.simpleTextWatcher then
    { s with
      handler := (s.handler.remove debounceRunnable).postDelay DEBOUNCE_TRIGGER_DURATION
        debounceRunnable }
  else s

def setText (text : String) (s : HiSearchView ρ) : HiSearchView ρ :=
  afterTextChanged debounceRunnable { s with text, changedAt := s.handler.now }

def setKeyWord (s : HiSearchView ρ) : HiSearchView ρ :=
  setText debounceRunnable "" (toggleSearchViewsVisibility true s.ensureKeywordContainer)

/-- The listener that a click on the clear icon gives to the text. -/
def clickEditText (s : HiSearchView ρ) : HiSearchView ρ :=
  let s := setText debounceRunnable "" s
  { s with
    clearIcon := changeVisibility s.clearIcon false
    searchIcon := true
    hintTv := true
    searchIconHintContainer := true }

omit [DecidableEq ρ] in
/-- What `debounceRunnable` does. -/
def runDebounce (s : HiSearchView ρ) : HiSearchView ρ :=
  if s.simpleTextWatcher then
    { s with heard := s.heard ++ [⟨s.changedAt, s.handler.now, s.text⟩] }
  else s

def onDetachedFromWindow (s : HiSearchView ρ) : HiSearchView ρ :=
  { s with handler := s.handler.remove debounceRunnable }

def dispatch (s : HiSearchView ρ) : Option (HiSearchView ρ) :=
  s.handler.dispatch.map fun handler ↦
    if (s.handler.queue.head?.map fun message ↦ message.callback.callback) =
        some (.runnable debounceRunnable) then
      { s with handler }.runDebounce
    else { s with handler }

end

end HiSearchView

/-- A call or a click.  The queue is that of all of the main thread: `other` is an event of it
that is not about this view. -/
inductive Action (ρ : Type*) where
  | edit (text : String)
  | setDebounceTextChangedListener
  | setKeyWord
  | setClearIconClickListener
  | clickClearIcon
  | clickEditText
  | clickKwClearIcon
  | onDetachedFromWindow
  | other (event : MainHandler.Event ρ)
  | elapse (mills : ℕ)
  | dispatch

/-- The runnable that an event submits or removes. -/
def target {ρ : Type*} : MainHandler.Event ρ → Option ρ
  | .post runnable => some runnable
  | .postDelay _ runnable => some runnable
  | .sendAtFrontOfQueue runnable => some runnable
  | .remove runnable => some runnable
  | .elapse _ => none
  | .dispatch => none

namespace HiSearchView

variable {ρ : Type*} [DecidableEq ρ]

/-- The user can edit the text, and click on something, while it is visible. -/
def step (attrs : Attrs) (debounceRunnable : ρ) (s : HiSearchView ρ) :
    Action ρ → Option (HiSearchView ρ)
  | .edit text => if s.editText then some (setText debounceRunnable text s) else none
  | .setDebounceTextChangedListener => some { s with simpleTextWatcher := true }
  | .setKeyWord => some (setKeyWord debounceRunnable s)
  | .setClearIconClickListener =>
      some { s with clearIconListener := s.clearIconListener || s.clearIcon.isSome }
  | .clickClearIcon =>
      if s.clearIcon = some true then
        some { s with editTextListener := s.editTextListener || s.clearIconListener }
      else none
  | .clickEditText =>
      if s.editText then
        some (if s.editTextListener then clickEditText debounceRunnable s else s)
      else none
  | .clickKwClearIcon =>
      if s.keywordContainer = some true ∧ attrs.keywordClearIcon = true then
        some (toggleSearchViewsVisibility false s)
      else none
  | .onDetachedFromWindow => some (onDetachedFromWindow debounceRunnable s)
  | .other event =>
      match target event with
      | none => none
      | some runnable =>
          if runnable = debounceRunnable then none
          else (s.handler.step event).map fun handler ↦ { s with handler }
  | .elapse mills => (s.handler.step (.elapse mills)).map fun handler ↦ { s with handler }
  | .dispatch => dispatch debounceRunnable s

/-- The keyword is shown in place of the text. -/
def keywordShown (s : HiSearchView ρ) : Bool := s.keywordContainer = some true

/-- Either the keyword is seen or the text, with the clear icon where the text has content and
the hint where it has none. -/
structure Displays (s : HiSearchView ρ) : Prop where
  editText : s.editText = !s.keywordShown
  clearIcon : ∀ visible, s.clearIcon = some visible → visible = hasContent s.text
  searchIconHintContainer : s.searchIconHintContainer = !hasContent s.text
  searchIcon : s.searchIcon = !s.keywordShown
  hintTv : s.hintTv = !s.keywordShown
  text : s.keywordShown = true → s.text = ""

/-! ### What is to be seen -/

variable {attrs : Attrs} {debounceRunnable : ρ} {s s' : HiSearchView ρ} {action : Action ρ}

theorem hasContent_empty : hasContent "" = false := by
  decide

theorem afterTextChanged_eq (debounceRunnable : ρ) (s : HiSearchView ρ) :
    ∃ handler, afterTextChanged debounceRunnable s =
      { s with
        handler
        clearIcon := changeVisibility s.clearIcon (hasContent s.text)
        searchIconHintContainer := !hasContent s.text } := by
  unfold afterTextChanged
  dsimp only
  split
  · exact ⟨_, rfl⟩
  · exact ⟨s.handler, rfl⟩

theorem eq_of_changeVisibility {view : Option Bool} {visible shown : Bool}
    (h : changeVisibility view visible = some shown) : shown = visible := by
  obtain ⟨_, -, heq⟩ := Option.map_eq_some_iff.mp h
  exact heq.symm

/-- A change of the text brings the icons into line with it. -/
theorem displays_setText {text : String} (hedit : s.editText = !s.keywordShown)
    (hicon : s.searchIcon = !s.keywordShown) (hhint : s.hintTv = !s.keywordShown)
    (htext : s.keywordShown = true → text = "") :
    Displays (setText debounceRunnable text s) := by
  obtain ⟨handler, heq⟩ := afterTextChanged_eq debounceRunnable
    { s with text, changedAt := s.handler.now }
  rw [setText, heq]
  exact ⟨hedit, fun visible hvisible ↦ eq_of_changeVisibility hvisible, rfl, hicon, hhint, htext⟩

theorem displays_setKeyWord (s : HiSearchView ρ) : Displays (setKeyWord debounceRunnable s) := by
  apply displays_setText
  · rfl
  · rfl
  · rfl
  · intro _
    rfl

omit [DecidableEq ρ] in
theorem Displays.of_eq (h : s.Displays) (htext : s'.text = s.text)
    (hedit : s'.editText = s.editText) (hclear : s'.clearIcon = s.clearIcon)
    (hcontainer : s'.searchIconHintContainer = s.searchIconHintContainer)
    (hicon : s'.searchIcon = s.searchIcon) (hhint : s'.hintTv = s.hintTv)
    (hkeyword : s'.keywordContainer = s.keywordContainer) : s'.Displays := by
  obtain ⟨h₁, h₂, h₃, h₄, h₅, h₆⟩ := h
  have hshown : s'.keywordShown = s.keywordShown := by
    rw [keywordShown, hkeyword, keywordShown]
  exact ⟨by rw [hedit, hshown, h₁], by rw [hclear, htext]; exact h₂, by rw [hcontainer, htext, h₃],
    by rw [hicon, hshown, h₄], by rw [hhint, hshown, h₅], by rw [hshown, htext]; exact h₆⟩

omit [DecidableEq ρ] in
theorem displays_create (attrs : Attrs) (now : ℕ) :
    Displays (create attrs now : HiSearchView ρ) := by
  refine ⟨rfl, fun visible hvisible ↦ ?_, ?_, rfl, rfl, fun _ ↦ rfl⟩
  · obtain ⟨-, heq⟩ := Option.ite_none_right_eq_some.mp hvisible
    rw [← Option.some.inj heq]
    exact hasContent_empty.symm
  · exact (congrArg not hasContent_empty).symm

theorem Displays.dispatch (h : s.Displays) (hdispatch : dispatch debounceRunnable s = some s') :
    s'.Displays := by
  obtain ⟨handler, -, rfl⟩ := Option.map_eq_some_iff.mp hdispatch
  split
  · unfold runDebounce
    split
    · exact h.of_eq rfl rfl rfl rfl rfl rfl rfl
    · exact h.of_eq rfl rfl rfl rfl rfl rfl rfl
  · exact h.of_eq rfl rfl rfl rfl rfl rfl rfl

/-- What goes on elsewhere is about another runnable, and changes the queue only. -/
theorem other_eq {event : MainHandler.Event ρ}
    (hstep : step attrs debounceRunnable s (.other event) = some s') :
    ∃ handler, (∃ runnable, target event = some runnable ∧ runnable ≠ debounceRunnable ∧
      s.handler.step event = some handler) ∧ s' = { s with handler } := by
  cases htarget : target event with
  | none =>
      simp only [HiSearchView.step, htarget] at hstep
      cases hstep
  | some runnable =>
      simp only [HiSearchView.step, htarget] at hstep
      obtain ⟨hne, hother⟩ := Option.ite_none_left_eq_some.mp hstep
      obtain ⟨handler, hhandler, rfl⟩ := Option.map_eq_some_iff.mp hother
      exact ⟨handler, ⟨runnable, rfl, hne, hhandler⟩, rfl⟩

theorem Displays.step (h : s.Displays) (hstep : step attrs debounceRunnable s action = some s') :
    s'.Displays := by
  cases action with
  | edit text =>
      obtain ⟨hedit, hset⟩ := Option.ite_none_right_eq_some.mp hstep
      obtain rfl := Option.some.inj hset
      refine displays_setText h.editText h.searchIcon h.hintTv fun hshown ↦ ?_
      rw [h.editText, hshown] at hedit
      cases hedit
  | setDebounceTextChangedListener =>
      obtain rfl := Option.some.inj hstep
      exact h.of_eq rfl rfl rfl rfl rfl rfl rfl
  | setKeyWord =>
      obtain rfl := Option.some.inj hstep
      exact displays_setKeyWord s
  | setClearIconClickListener =>
      obtain rfl := Option.some.inj hstep
      exact h.of_eq rfl rfl rfl rfl rfl rfl rfl
  | clickClearIcon =>
      obtain ⟨-, hclick⟩ := Option.ite_none_right_eq_some.mp hstep
      obtain rfl := Option.some.inj hclick
      exact h.of_eq rfl rfl rfl rfl rfl rfl rfl
  | clickEditText =>
      obtain ⟨hedit, hclick⟩ := Option.ite_none_right_eq_some.mp hstep
      obtain rfl := Option.some.inj hclick
      split
      · -- the text is visible, so that the keyword is not
        have hshown : s.keywordShown = false := by
          rw [h.editText] at hedit
          simpa using hedit
        obtain ⟨handler, heq⟩ := afterTextChanged_eq debounceRunnable
          { s with text := "", changedAt := s.handler.now }
        rw [clickEditText, setText, heq]
        refine ⟨h.editText, fun visible hvisible ↦ ?_, ?_, ?_, ?_, fun _ ↦ rfl⟩
        · rw [eq_of_changeVisibility hvisible]
          exact hasContent_empty.symm
        · exact (congrArg not hasContent_empty).symm
        · exact (congrArg not hshown).symm
        · exact (congrArg not hshown).symm
      · exact h
  | clickKwClearIcon =>
      obtain ⟨⟨hshown, -⟩, hclick⟩ := Option.ite_none_right_eq_some.mp hstep
      obtain rfl := Option.some.inj hclick
      have htext := h.text (by rw [keywordShown, hshown]; decide)
      refine ⟨?_, fun visible hvisible ↦ ?_, ?_, ?_, ?_, fun _ ↦ htext⟩
      · simp [keywordShown, toggleSearchViewsVisibility, changeVisibility, hshown]
      · rw [eq_of_changeVisibility hvisible, toggleSearchViewsVisibility, htext]
        exact hasContent_empty.symm
      · rw [toggleSearchViewsVisibility, htext]
        exact (congrArg not hasContent_empty).symm
      · simp [keywordShown, toggleSearchViewsVisibility, changeVisibility, hshown]
      · simp [keywordShown, toggleSearchViewsVisibility, changeVisibility, hshown]
  | onDetachedFromWindow =>
      obtain rfl := Option.some.inj hstep
      exact h.of_eq rfl rfl rfl rfl rfl rfl rfl
  | other event =>
      obtain ⟨handler, -, rfl⟩ := other_eq hstep
      exact h.of_eq rfl rfl rfl rfl rfl rfl rfl
  | elapse mills =>
      obtain rfl := Option.some.inj hstep
      exact h.of_eq rfl rfl rfl rfl rfl rfl rfl
  | dispatch => exact h.dispatch hstep

/-- Whatever is typed, clicked and set, the keyword, the text and the hint are shown by turns. -/
theorem displays_of_run {now : ℕ} {actions : List (Action ρ)}
    (hrun : run (step attrs debounceRunnable) (create attrs now) actions = some s) : s.Displays :=
  run_invariant' (fun _ _ _ hu hstep ↦ hu.step hstep) (displays_create attrs now) hrun

/-- A text that is typed, the keyword in its place, and the text again. -/
def keywordRun : List (Action (Fin 2)) :=
  [.edit " a", .setKeyWord, .clickKwClearIcon, .edit "b"]

theorem displays_of_run_keyword :
    ∃ s, run (step ⟨true, true⟩ 0) (create ⟨true, true⟩ 0) keywordRun = some s ∧ s.Displays ∧
      s.clearIcon = some true ∧ s.keywordContainer = some false :=
  ⟨_, rfl, @displays_of_run (Fin 2) _ ⟨true, true⟩ 0 _ 0 keywordRun rfl, by decide, rfl⟩

/-! ### The watcher -/

/-- When `debounceRunnable` is due. -/
def deadlines (debounceRunnable : ρ) (queue : List (Message (Submission ρ))) : List ℕ :=
  queue.filterMap fun message ↦
    if message.callback.callback = .runnable debounceRunnable then some message.time else none

theorem deadlines_enqueue_of_ne {message : Message (Submission ρ)}
    (h : message.callback.callback ≠ .runnable debounceRunnable)
    (queue : List (Message (Submission ρ))) :
    deadlines debounceRunnable (message.enqueue queue) = deadlines debounceRunnable queue := by
  induction queue with
  | nil => simp [deadlines, Message.enqueue, h]
  | cons head rest ih =>
      rw [Message.enqueue]
      split
      · simp [deadlines, h]
      · simp only [deadlines, List.filterMap_cons] at ih ⊢
        rw [ih]

theorem deadlines_enqueue_self {message : Message (Submission ρ)}
    {queue : List (Message (Submission ρ))}
    (h : message.callback.callback = .runnable debounceRunnable)
    (hqueue : deadlines debounceRunnable queue = []) :
    deadlines debounceRunnable (message.enqueue queue) = [message.time] := by
  induction queue with
  | nil => simp [deadlines, Message.enqueue, h]
  | cons head rest ih =>
      have hhead : head.callback.callback ≠ .runnable debounceRunnable := by
        intro hhead
        simp [deadlines, hhead] at hqueue
      have hrest : deadlines debounceRunnable rest = [] := by
        simpa [deadlines, hhead] using hqueue
      rw [Message.enqueue]
      split
      · simpa [deadlines, h, hhead] using hrest
      · simpa [deadlines, hhead] using ih hrest

theorem deadlines_remove_self (handler : MainHandler ρ) :
    deadlines debounceRunnable (handler.remove debounceRunnable).queue = [] := by
  rw [deadlines, List.filterMap_eq_nil_iff]
  intro message hmessage
  obtain ⟨other, -, hne, rfl⟩ := MainHandler.mem_remove_queue.mp hmessage
  rw [MainHandler.cancel_callback, if_neg hne]

theorem deadlines_remove_of_ne {runnable : ρ} (hne : runnable ≠ debounceRunnable)
    (handler : MainHandler ρ) :
    deadlines debounceRunnable (handler.remove runnable).queue =
      deadlines debounceRunnable handler.queue := by
  simp only [deadlines, MainHandler.remove]
  rw [List.filterMap_map, List.filterMap_filter]
  apply List.filterMap_congr
  intro message _
  by_cases hcallback : message.callback.callback = .runnable debounceRunnable
  · simp [hcallback, MainHandler.cancel_of_ne, Callback.submitted, hne.symm]
  · simp [hcallback]

theorem deadlines_other {event : MainHandler.Event ρ} {runnable : ρ}
    {handler handler' : MainHandler ρ} (htarget : target event = some runnable)
    (hne : runnable ≠ debounceRunnable) (hstep : handler.step event = some handler') :
    deadlines debounceRunnable handler'.queue = deadlines debounceRunnable handler.queue ∧
      handler'.now = handler.now := by
  have hother : Callback.runnable runnable ≠ .runnable debounceRunnable :=
    fun h ↦ hne (Callback.runnable.inj h)
  cases event with
  | post other =>
      obtain rfl := Option.some.inj hstep
      exact ⟨deadlines_enqueue_of_ne (by simp) _, rfl⟩
  | postDelay delayMills other =>
      obtain rfl := Option.some.inj htarget
      obtain rfl := Option.some.inj hstep
      exact ⟨deadlines_enqueue_of_ne hother _, rfl⟩
  | sendAtFrontOfQueue other =>
      obtain rfl := Option.some.inj htarget
      obtain rfl := Option.some.inj hstep
      exact ⟨deadlines_enqueue_of_ne hother _, rfl⟩
  | remove other =>
      obtain rfl := Option.some.inj htarget
      obtain rfl := Option.some.inj hstep
      exact ⟨deadlines_remove_of_ne hne handler, rfl⟩
  | elapse mills => cases htarget
  | dispatch => cases htarget

/-- The box as its watcher sees it. -/
def debounce (debounceRunnable : ρ) (s : HiSearchView ρ) : Debounce String where
  now := s.handler.now
  value := s.text
  changedAt := s.changedAt
  deadline := (deadlines debounceRunnable s.handler.queue).head?
  heard := s.heard

/-- What an action is to the watcher. -/
def changes (debounceRunnable : ρ) (s : HiSearchView ρ) :
    Action ρ → List (Debounce.Action String)
  | .edit text => [.change s.simpleTextWatcher text]
  | .setKeyWord => [.change s.simpleTextWatcher ""]
  | .clickEditText => if s.editTextListener then [.change s.simpleTextWatcher ""] else []
  | .onDetachedFromWindow => [.cancel]
  | .elapse mills => [.elapse mills]
  | .dispatch =>
      if (s.handler.queue.head?.map fun message ↦ message.callback.callback) =
          some (.runnable debounceRunnable) then
        [.fire]
      else []
  | .setDebounceTextChangedListener | .setClearIconClickListener | .clickClearIcon
  | .clickKwClearIcon | .other _ => []

/-- `debounceRunnable` waits at most once, and never without a watcher. -/
structure Single (debounceRunnable : ρ) (s : HiSearchView ρ) : Prop where
  length_le : (deadlines debounceRunnable s.handler.queue).length ≤ 1
  watched : s.simpleTextWatcher = false → deadlines debounceRunnable s.handler.queue = []

/-- The watcher's view makes the changes, and the runnable still waits at most once. -/
def Simulated (debounceRunnable : ρ) (s s' : HiSearchView ρ)
    (changes : List (Debounce.Action String)) : Prop :=
  run (Debounce.step DEBOUNCE_TRIGGER_DURATION) (debounce debounceRunnable s) changes =
    some (debounce debounceRunnable s') ∧ Single debounceRunnable s'

theorem Single.setText (h : Single debounceRunnable s) (text : String) :
    Simulated debounceRunnable s (setText debounceRunnable text s)
      [.change s.simpleTextWatcher text] := by
  cases hwatcher : s.simpleTextWatcher with
  | true =>
      have hdeadlines : deadlines debounceRunnable
          (HiSearchView.setText debounceRunnable text s).handler.queue =
            [s.handler.now + DEBOUNCE_TRIGGER_DURATION] := by
        simp only [HiSearchView.setText, afterTextChanged, hwatcher, if_true]
        exact deadlines_enqueue_self rfl (deadlines_remove_self s.handler)
      refine ⟨?_, ?_, fun hnone ↦ ?_⟩
      · simp only [run, debounce, hdeadlines]
        simp [Debounce.step, HiSearchView.setText, afterTextChanged, hwatcher,
          MainHandler.postDelay, MainHandler.enqueue, MainHandler.remove]
      · rw [hdeadlines]
        exact Nat.le_refl 1
      · simp [HiSearchView.setText, afterTextChanged, hwatcher] at hnone
  | false =>
      have hdeadlines := h.watched hwatcher
      have hhandler : (HiSearchView.setText debounceRunnable text s).handler = s.handler := by
        simp [HiSearchView.setText, afterTextChanged, hwatcher]
      refine ⟨?_, ?_, fun _ ↦ ?_⟩
      · simp [run, Debounce.step, debounce, hdeadlines, HiSearchView.setText, afterTextChanged,
          hwatcher]
      · rw [hhandler]
        exact h.length_le
      · rw [hhandler]
        exact hdeadlines

omit [DecidableEq ρ] in
theorem due_of_dispatch {handler handler' : MainHandler ρ}
    (hdispatch : handler.dispatch = some handler') :
    ∃ message, handler.queue = message :: handler'.queue ∧ message.time ≤ handler.now ∧
      handler'.now = handler.now := by
  unfold MainHandler.dispatch at hdispatch
  split at hdispatch
  · cases hdispatch
  · rename_i message queue hqueue
    obtain ⟨hle, heq⟩ := Option.ite_none_right_eq_some.mp hdispatch
    obtain rfl := Option.some.inj heq
    exact ⟨message, hqueue, hle, rfl⟩

theorem Single.dispatch (h : Single debounceRunnable s)
    (hdispatch : dispatch debounceRunnable s = some s') :
    Simulated debounceRunnable s s' (changes debounceRunnable s .dispatch) := by
  obtain ⟨handler, hhandler, rfl⟩ := Option.map_eq_some_iff.mp hdispatch
  obtain ⟨message, hqueue, hle, hnow⟩ := due_of_dispatch hhandler
  by_cases hcallback : message.callback.callback = .runnable debounceRunnable
  · have hdeadlines : deadlines debounceRunnable s.handler.queue =
        message.time :: deadlines debounceRunnable handler.queue := by
      simp [deadlines, hqueue, hcallback]
    -- it waits once, so that it waits no longer
    have hrest : deadlines debounceRunnable handler.queue = [] := by
      have hlength := h.length_le
      rw [hdeadlines, List.length_cons] at hlength
      exact List.length_eq_zero_iff.mp (by omega)
    have hwatcher : s.simpleTextWatcher = true := by
      rw [← Bool.not_eq_false]
      intro hnone
      rw [h.watched hnone] at hdeadlines
      cases hdeadlines
    have hhead : (s.handler.queue.head?.map fun message ↦ message.callback.callback) =
        some (.runnable debounceRunnable) := by
      rw [hqueue]
      exact congrArg some hcallback
    simp only [changes, hhead, if_true]
    refine ⟨?_, ?_, fun hnone ↦ ?_⟩
    · simp [run, Debounce.step, debounce, hdeadlines, hle, hrest, runDebounce, hwatcher, hnow]
    · simp [runDebounce, hwatcher, hrest]
    · simp [runDebounce, hwatcher] at hnone
  · have hdeadlines : deadlines debounceRunnable handler.queue =
        deadlines debounceRunnable s.handler.queue := by
      simp [deadlines, hqueue, hcallback]
    have hhead : (s.handler.queue.head?.map fun message ↦ message.callback.callback) ≠
        some (.runnable debounceRunnable) := by
      rw [hqueue]
      exact fun hhead ↦ hcallback (Option.some.inj hhead)
    simp only [changes, hhead, if_false]
    refine ⟨?_, ?_, fun hnone ↦ ?_⟩
    · simp [run, debounce, hdeadlines, hnow]
    · rw [hdeadlines]
      exact h.length_le
    · rw [hdeadlines]
      exact h.watched hnone

theorem Single.of_eq (h : Single debounceRunnable s) (hnow : s'.handler.now = s.handler.now)
    (hdeadlines : deadlines debounceRunnable s'.handler.queue =
      deadlines debounceRunnable s.handler.queue)
    (htext : s'.text = s.text) (hchanged : s'.changedAt = s.changedAt)
    (hheard : s'.heard = s.heard)
    (hwatcher : s.simpleTextWatcher = true → s'.simpleTextWatcher = true) :
    Simulated debounceRunnable s s' [] := by
  refine ⟨?_, ?_, fun hnone ↦ ?_⟩
  · simp [run, debounce, hnow, hdeadlines, htext, hchanged, hheard]
  · rw [hdeadlines]
    exact h.length_le
  · rw [hdeadlines]
    apply h.watched
    rw [← Bool.not_eq_true]
    intro hset
    rw [hwatcher hset] at hnone
    cases hnone

theorem Single.step (h : Single debounceRunnable s)
    (hstep : step attrs debounceRunnable s action = some s') :
    Simulated debounceRunnable s s' (changes debounceRunnable s action) := by
  cases action with
  | edit text =>
      obtain ⟨-, hset⟩ := Option.ite_none_right_eq_some.mp hstep
      obtain rfl := Option.some.inj hset
      exact h.setText text
  | setDebounceTextChangedListener =>
      obtain rfl := Option.some.inj hstep
      exact h.of_eq rfl rfl rfl rfl rfl fun _ ↦ rfl
  | setKeyWord =>
      obtain rfl := Option.some.inj hstep
      have htoggled : Single debounceRunnable
          (toggleSearchViewsVisibility true s.ensureKeywordContainer) :=
        ⟨h.length_le, h.watched⟩
      exact htoggled.setText ""
  | setClearIconClickListener =>
      obtain rfl := Option.some.inj hstep
      exact h.of_eq rfl rfl rfl rfl rfl fun hset ↦ hset
  | clickClearIcon =>
      obtain ⟨-, hclick⟩ := Option.ite_none_right_eq_some.mp hstep
      obtain rfl := Option.some.inj hclick
      exact h.of_eq rfl rfl rfl rfl rfl fun hset ↦ hset
  | clickEditText =>
      obtain ⟨-, hclick⟩ := Option.ite_none_right_eq_some.mp hstep
      obtain rfl := Option.some.inj hclick
      cases hlistener : s.editTextListener with
      | true =>
          obtain ⟨hrun, hle, hwatched⟩ := h.setText ""
          simp only [changes, hlistener, if_true]
          exact ⟨hrun, hle, hwatched⟩
      | false =>
          simp only [changes, hlistener, Bool.false_eq_true, if_false]
          exact h.of_eq rfl rfl rfl rfl rfl fun hset ↦ hset
  | clickKwClearIcon =>
      obtain ⟨-, hclick⟩ := Option.ite_none_right_eq_some.mp hstep
      obtain rfl := Option.some.inj hclick
      exact h.of_eq rfl rfl rfl rfl rfl fun hset ↦ hset
  | onDetachedFromWindow =>
      obtain rfl := Option.some.inj hstep
      have hnone : deadlines debounceRunnable
          (onDetachedFromWindow debounceRunnable s).handler.queue = [] :=
        deadlines_remove_self s.handler
      refine ⟨?_, ?_, fun _ ↦ hnone⟩
      · simp only [changes, run, Debounce.step, debounce, hnone]
        rfl
      · rw [hnone]
        exact Nat.zero_le 1
  | other event =>
      obtain ⟨handler, ⟨runnable, htarget, hne, hhandler⟩, rfl⟩ := other_eq hstep
      obtain ⟨hdeadlines, hnow⟩ := deadlines_other htarget hne hhandler
      exact h.of_eq hnow hdeadlines rfl rfl rfl fun hset ↦ hset
  | elapse mills =>
      obtain rfl := Option.some.inj hstep
      exact ⟨rfl, h.length_le, h.watched⟩
  | dispatch => exact h.dispatch hstep

theorem watcher_setText {text : String} :
    (setText debounceRunnable text s).simpleTextWatcher = s.simpleTextWatcher := by
  obtain ⟨handler, heq⟩ := afterTextChanged_eq debounceRunnable
    { s with text, changedAt := s.handler.now }
  rw [setText, heq]

theorem watcher_step (hwatcher : s.simpleTextWatcher = true)
    (hstep : step attrs debounceRunnable s action = some s') : s'.simpleTextWatcher = true := by
  cases action with
  | edit text =>
      obtain ⟨-, hset⟩ := Option.ite_none_right_eq_some.mp hstep
      obtain rfl := Option.some.inj hset
      exact watcher_setText.trans hwatcher
  | setDebounceTextChangedListener =>
      obtain rfl := Option.some.inj hstep
      rfl
  | setKeyWord =>
      obtain rfl := Option.some.inj hstep
      exact watcher_setText.trans hwatcher
  | setClearIconClickListener =>
      obtain rfl := Option.some.inj hstep
      exact hwatcher
  | clickClearIcon =>
      obtain ⟨-, hclick⟩ := Option.ite_none_right_eq_some.mp hstep
      obtain rfl := Option.some.inj hclick
      exact hwatcher
  | clickEditText =>
      obtain ⟨-, hclick⟩ := Option.ite_none_right_eq_some.mp hstep
      obtain rfl := Option.some.inj hclick
      split
      · exact watcher_setText.trans hwatcher
      · exact hwatcher
  | clickKwClearIcon =>
      obtain ⟨-, hclick⟩ := Option.ite_none_right_eq_some.mp hstep
      obtain rfl := Option.some.inj hclick
      exact hwatcher
  | onDetachedFromWindow =>
      obtain rfl := Option.some.inj hstep
      exact hwatcher
  | other event =>
      obtain ⟨handler, -, rfl⟩ := other_eq hstep
      exact hwatcher
  | elapse mills =>
      obtain rfl := Option.some.inj hstep
      exact hwatcher
  | dispatch =>
      obtain ⟨handler, -, rfl⟩ := Option.map_eq_some_iff.mp hstep
      split
      · simp [runDebounce, hwatcher]
      · exact hwatcher

theorem changes_lasting (hwatcher : s.simpleTextWatcher = true)
    (hattached : action ≠ .onDetachedFromWindow) :
    ∀ change ∈ changes debounceRunnable s action, change.Lasting := by
  have hchange (text : String) :
      ∀ change ∈ [Debounce.Action.change s.simpleTextWatcher text], change.Lasting :=
    List.forall_mem_singleton.mpr hwatcher
  cases action with
  | edit text => exact hchange text
  | setKeyWord => exact hchange ""
  | clickEditText =>
      simp only [changes]
      split
      · exact hchange ""
      · exact List.forall_mem_nil _
  | onDetachedFromWindow => exact absurd rfl hattached
  | elapse mills => exact List.forall_mem_singleton.mpr trivial
  | dispatch =>
      simp only [changes]
      split
      · exact List.forall_mem_singleton.mpr trivial
      · exact List.forall_mem_nil _
  | setDebounceTextChangedListener | setClearIconClickListener | clickClearIcon
  | clickKwClearIcon | other _ => exact List.forall_mem_nil _

/-- What the actions of a run are to the watcher, step by step. -/
theorem exists_changes (h : Single debounceRunnable s) {actions : List (Action ρ)}
    (hrun : run (step attrs debounceRunnable) s actions = some s') :
    ∃ changes, Simulated debounceRunnable s s' changes ∧
      (s.simpleTextWatcher = true → .onDetachedFromWindow ∉ actions →
        ∀ change ∈ changes, change.Lasting) := by
  induction actions generalizing s with
  | nil =>
      obtain rfl := Option.some.inj hrun
      exact ⟨[], ⟨rfl, h⟩, fun _ _ ↦ List.forall_mem_nil _⟩
  | cons action actions ih =>
      obtain ⟨u, hstep, hrest⟩ := Option.bind_eq_some_iff.mp hrun
      obtain ⟨hfirst, hu⟩ := h.step hstep
      obtain ⟨later, ⟨hlater, hs'⟩, hlasting⟩ := ih hu hrest
      refine ⟨changes debounceRunnable s action ++ later, ⟨?_, hs'⟩, fun hwatcher hattached ↦ ?_⟩
      · rw [run_append, hfirst, Option.bind_some, hlater]
      · obtain ⟨hne, hattached⟩ := not_or.mp fun h ↦ hattached (List.mem_cons.mpr h)
        refine List.forall_mem_append.mpr ⟨changes_lasting hwatcher (Ne.symm hne), ?_⟩
        exact hlasting (watcher_step hwatcher hstep) hattached

/-- The watcher is told of no text that has changed within the 200 ms, of none twice, and of the
last one in the end: once it is set, and unless the box is detached, it knows the text whenever
it is not due to be told of it. -/
theorem debounces {now : ℕ} {actions : List (Action ρ)}
    (hrun : run (step attrs debounceRunnable) (create attrs now) actions = some s) :
    Debounce.Orderly DEBOUNCE_TRIGGER_DURATION s.heard ∧
      (deadlines debounceRunnable s.handler.queue).length ≤ 1 ∧
      ∀ rest, actions = .setDebounceTextChangedListener :: rest →
        .onDetachedFromWindow ∉ rest → deadlines debounceRunnable s.handler.queue = [] →
          (s.heard.getLast?.map DebouncedCall.value).getD "" = s.text := by
  have hcreate : Single debounceRunnable (create attrs now) := ⟨Nat.zero_le 1, fun _ ↦ rfl⟩
  obtain ⟨changes, ⟨hchanges, hsingle⟩, -⟩ := exists_changes hcreate hrun
  refine ⟨?_, hsingle.length_le, fun rest hactions hattached hnone ↦ ?_⟩
  · exact (Debounce.inv_of_run (Debounce.inv_init now "" now) hchanges).orderly
  · subst hactions
    have hset : Single debounceRunnable
        { (create attrs now : HiSearchView ρ) with simpleTextWatcher := true } :=
      ⟨Nat.zero_le 1, fun _ ↦ rfl⟩
    obtain ⟨changes, ⟨hchanges, -⟩, hlasting⟩ := exists_changes hset hrun
    have htold : (debounce debounceRunnable s).told "" = (debounce debounceRunnable s).value := by
      apply Debounce.told_of_run (hlasting rfl hattached) rfl hchanges
      exact congrArg List.head? hnone
    exact htold

/-- Two changes within 200 ms, and a runnable of somebody else that is due later. -/
def typingRun : List (Action (Fin 2)) :=
  [.setDebounceTextChangedListener, .edit "a", .elapse 150, .edit "ab", .other (.postDelay 300 1),
    .elapse 200, .dispatch, .elapse 100, .dispatch]

theorem debounces_typing :
    ∃ s, run (step ⟨true, true⟩ 0) (create ⟨true, true⟩ 0) typingRun = some s ∧
      Debounce.Orderly 200 s.heard ∧ s.heard = [⟨150, 350, "ab"⟩] ∧
      (s.heard.getLast?.map DebouncedCall.value).getD "" = s.text := by
  obtain ⟨s, hrun, hheard, hnone⟩ :
      ∃ s, run (step ⟨true, true⟩ 0) (create ⟨true, true⟩ 0) typingRun = some s ∧
        s.heard = [⟨150, 350, "ab"⟩] ∧ deadlines 0 s.handler.queue = [] := ⟨_, rfl, rfl, rfl⟩
  obtain ⟨horderly, -, htold⟩ := debounces hrun
  exact ⟨s, hrun, horderly, hheard, htold _ rfl (by simp) hnone⟩

end HiSearchView

end HiApp.Search
