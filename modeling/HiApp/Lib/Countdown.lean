import Mathlib.Data.Multiset.Filter
import Mathlib.Logic.Function.Basic
import Mathlib.Logic.Relation

/-!
# Countdown networks

A node of a countdown network waits for a bag of other nodes.  Whenever one of
them has run, it reports to its successors; a report crosses one occurrence of
the reporter off the successor's bag, and the successor is released when its
bag is empty.  The two bags of a network need not agree: `needs b` is what `b`
waits for, `feeds a` is whom `a` reports to, with multiplicities, and only
`feeds a` being covered by `needs` is assumed.

A node with no successors of its own ignores reports (`Step.skip`).  The root
is launched from outside, whatever it waits for.

`Inv` is the ledger that relates the bags to the reports still due.  Its three
consequences are that a report always finds its addressee idle
(`Inv.idle_of_telling`), that a released node has all its needs finished
(`Inv.finished_of_mem_needs`), and an exact account of the nodes that are
released once all their needs have reported (`Inv.phase_ne_idle_iff`).
-/

namespace HiApp.Countdown

open Relation

variable {ν : Type*} [DecidableEq ν]

/-- The network seen from its root: nothing reachable from the root lies on a
cycle. -/
structure Network (ν : Type*) [DecidableEq ν] where
  root : ν
  needs : ν → Multiset ν
  feeds : ν → Multiset ν
  feeds_le : ∀ a b, a ≠ b → (feeds a).count b ≤ (needs b).count a
  acyclic : ∀ a, ReflTransGen (fun x y ↦ y ∈ feeds x) root a →
    ¬ TransGen (fun x y ↦ y ∈ feeds x) a a

/-- Where a node is in its single life.  `telling rest` still owes a report to
each element of `rest`. -/
inductive Phase (ν : Type*) where
  | idle
  | queued
  | running
  | telling (rest : Multiset ν)
  | retired

namespace Phase

def Finished : Phase ν → Prop
  | .telling _ | .retired => True
  | _ => False

def Told : Phase ν → Prop
  | .telling rest => rest = 0
  | .retired => True
  | _ => False

/-- The number of reports a node with successors `feeds` still owes to `b`. -/
def due (feeds : Multiset ν) (b : ν) : Phase ν → ℕ
  | .telling rest => rest.count b
  | .retired => 0
  | _ => feeds.count b

omit [DecidableEq ν] in
theorem Told.finished {p : Phase ν} (h : p.Told) : p.Finished := by
  cases p <;> simp_all [Told, Finished]

theorem Told.due_eq_zero {p : Phase ν} (h : p.Told) (feeds : Multiset ν)
    (b : ν) : p.due feeds b = 0 := by
  cases p <;> simp_all [Told, due]

theorem finished_of_due_lt {p : Phase ν} (feeds : Multiset ν) (b : ν)
    (h : p.due feeds b < feeds.count b) : p.Finished := by
  cases p <;> simp_all [due, Finished]

end Phase

/-- A configuration: the phase of every node and the bag it still waits for. -/
structure Config (ν : Type*) where
  phase : ν → Phase ν
  waits : ν → Multiset ν

namespace Config

def setPhase (c : Config ν) (a : ν) (p : Phase ν) : Config ν :=
  { c with phase := Function.update c.phase a p }

/-- `a` reports to the idle node `b`, which is released by its last report. -/
def tell (c : Config ν) (a b : ν) (rest : Multiset ν) : Config ν where
  phase := Function.update (Function.update c.phase a (.telling rest)) b
    (if (c.waits b).erase a = 0 then .queued else .idle)
  waits := Function.update c.waits b ((c.waits b).erase a)

variable {c : Config ν} {a b x : ν} {rest : Multiset ν}

theorem tell_phase_sender (hne : a ≠ b) :
    (c.tell a b rest).phase a = .telling rest := by
  simp [tell, hne]

theorem tell_phase_addressee : (c.tell a b rest).phase b =
    if (c.waits b).erase a = 0 then .queued else .idle := by
  simp [tell]

theorem tell_phase_of_ne (hxa : x ≠ a) (hxb : x ≠ b) :
    (c.tell a b rest).phase x = c.phase x := by
  simp [tell, hxa, hxb]

theorem due_tell (ha : c.phase a = .telling (b ::ₘ rest)) (hidle : c.phase b = .idle)
    (feeds : Multiset ν) (x y : ν) :
    ((c.tell a b rest).phase x).due feeds y + (if x = a ∧ y = b then 1 else 0) =
      (c.phase x).due feeds y := by
  have hne : a ≠ b := by
    rintro rfl
    simp [hidle] at ha
  by_cases hxa : x = a
  · subst hxa
    rw [tell_phase_sender hne, ha]
    simp [Phase.due, Multiset.count_cons]
  · by_cases hxb : x = b
    · subst hxb
      rw [tell_phase_addressee, hidle]
      split <;> simp [Phase.due, hxa]
    · simp [tell_phase_of_ne hxa hxb, hxa]

theorem count_erase_add (hmem : a ∈ c.waits b) (x : ν) :
    ((c.waits b).erase a).count x + (if x = a then 1 else 0) =
      (c.waits b).count x := by
  by_cases hxa : x = a
  · subst hxa
    have hpos := Multiset.count_pos.mpr hmem
    rw [Multiset.count_erase_self, if_pos rfl]
    omega
  · simp [Multiset.count_erase_of_ne hxa, hxa]

end Config

/-- The configuration in which nothing has happened yet. -/
def Network.initial (N : Network ν) : Config ν :=
  ⟨fun _ ↦ .idle, N.needs⟩

def Network.Edge (N : Network ν) (a b : ν) : Prop := b ∈ N.feeds a

inductive Step (N : Network ν) : Config ν → Config ν → Prop
  | launch (c : Config ν) (hroot : c.phase N.root = .idle) :
      Step N c (c.setPhase N.root .queued)
  | begin (c : Config ν) (a : ν) (ha : c.phase a = .queued) :
      Step N c (c.setPhase a .running)
  | finish (c : Config ν) (a : ν) (ha : c.phase a = .running) :
      Step N c (c.setPhase a (.telling (N.feeds a)))
  | skip (c : Config ν) (a b : ν) (rest : Multiset ν)
      (ha : c.phase a = .telling (b ::ₘ rest)) (hb : N.feeds b = 0) :
      Step N c (c.setPhase a (.telling rest))
  | tell (c : Config ν) (a b : ν) (rest : Multiset ν)
      (ha : c.phase a = .telling (b ::ₘ rest)) (hb : N.feeds b ≠ 0)
      (hidle : c.phase b = .idle) : Step N c (c.tell a b rest)
  | retire (c : Config ν) (a : ν) (ha : c.phase a = .telling 0) :
      Step N c (c.setPhase a .retired)

theorem Step.phase_ne_idle {N : Network ν} {c c' : Config ν} {x : ν}
    (hstep : Step N c c') (hx : c.phase x ≠ .idle) : c'.phase x ≠ .idle := by
  have hset : ∀ (a : ν) (p : Phase ν), p ≠ .idle →
      (c.setPhase a p).phase x ≠ .idle := by
    intro a p hp
    by_cases hxa : x = a
    · simpa [Config.setPhase, hxa] using hp
    · simpa [Config.setPhase, hxa] using hx
  cases hstep with
  | launch | begin | finish | skip | retire => exact hset _ _ (by simp)
  | tell a b rest ha hb hidle =>
      have hxb : x ≠ b := by
        rintro rfl
        exact hx hidle
      have hkeep := hset a (.telling rest) (by simp)
      simpa [Config.tell, Config.setPhase, hxb] using hkeep

namespace Network

variable (N : Network ν)

theorem not_edge_self {a : ν} (ha : ReflTransGen N.Edge N.root a) :
    ¬ N.Edge a a :=
  fun h ↦ N.acyclic a ha (.single h)

theorem not_edge_root {a : ν} (ha : ReflTransGen N.Edge N.root a) :
    ¬ N.Edge a N.root :=
  fun h ↦ N.acyclic a ha (TransGen.head' h ha)

theorem needs_ne_zero {b : ν} (hb : ReflTransGen N.Edge N.root b)
    (hroot : b ≠ N.root) : N.needs b ≠ 0 := by
  rcases ReflTransGen.cases_tail hb with heq | ⟨a, ha, hedge⟩
  · exact (hroot heq).elim
  · have hne : a ≠ b := by
      rintro rfl
      exact N.not_edge_self ha hedge
    have hle := N.feeds_le a b hne
    have hpos := Multiset.count_pos.mpr hedge
    have hmem : a ∈ N.needs b := Multiset.count_pos.mp (by omega)
    intro hzero
    simp [hzero] at hmem

end Network

/-- The ledger of a configuration.  For an idle node with successors, what it
still waits for and what was reported to it add up; a node that left `idle`
is owed nothing more, and its two bags agreed. -/
structure Inv (N : Network ν) (c : Config ν) : Prop where
  reach : ∀ a, c.phase a ≠ .idle → ReflTransGen N.Edge N.root a
  owed : ∀ a b, (c.phase a).due (N.feeds a) b ≤ (N.feeds a).count b
  sink : ∀ b, b ≠ N.root → N.feeds b = 0 → c.phase b = .idle
  ledger : ∀ a b, b ≠ N.root → N.feeds b ≠ 0 → c.phase b = .idle →
    (c.waits b).count a + (N.feeds a).count b =
      (N.needs b).count a + (c.phase a).due (N.feeds a) b
  spent : ∀ a b, b ≠ N.root → c.phase b ≠ .idle →
    (c.phase a).due (N.feeds a) b = 0 ∧
      (N.feeds a).count b = (N.needs b).count a
  armed : ∀ b, b ≠ N.root → N.needs b ≠ 0 → c.phase b = .idle →
    c.waits b ≠ 0

theorem inv_initial (N : Network ν) : Inv N N.initial where
  reach _ ha := (ha rfl).elim
  owed _ _ := le_rfl
  sink _ _ _ := rfl
  ledger _ _ _ _ _ := rfl
  spent _ _ _ hb := (hb rfl).elim
  armed _ _ hb _ := hb

namespace Inv

variable {N : Network ν} {c : Config ν} {a b : ν} {rest : Multiset ν}

theorem edge_of_telling (h : Inv N c)
    (ha : c.phase a = .telling (b ::ₘ rest)) : N.Edge a b := by
  have howed := h.owed a b
  simp only [ha, Phase.due, Multiset.count_cons_self] at howed
  exact Multiset.count_pos.mp (by omega)

/-- A node that a report is addressed to is reachable, is neither the reporter
nor the root, and is still idle: it cannot have been released before. -/
theorem idle_of_telling (h : Inv N c)
    (ha : c.phase a = .telling (b ::ₘ rest)) :
    ReflTransGen N.Edge N.root b ∧ b ≠ a ∧ b ≠ N.root ∧
      c.phase b = .idle := by
  have hreach : ReflTransGen N.Edge N.root a := h.reach a (by simp [ha])
  have hedge := h.edge_of_telling ha
  have hne : b ≠ a := by
    rintro rfl
    exact N.not_edge_self hreach hedge
  have hroot : b ≠ N.root := by
    rintro rfl
    exact N.not_edge_root hreach hedge
  refine ⟨hreach.tail hedge, hne, hroot, ?_⟩
  by_contra hidle
  have hdue := (h.spent a b hroot hidle).1
  simp [ha, Phase.due] at hdue

theorem mem_waits_of_telling (h : Inv N c)
    (ha : c.phase a = .telling (b ::ₘ rest)) (hb : N.feeds b ≠ 0) :
    a ∈ c.waits b := by
  obtain ⟨_, hne, hroot, hidle⟩ := h.idle_of_telling ha
  have hledger := h.ledger a b hroot hb hidle
  have hle := N.feeds_le a b hne.symm
  simp only [ha, Phase.due, Multiset.count_cons_self] at hledger
  exact Multiset.count_pos.mp (by omega)

theorem finished_of_mem_needs (h : Inv N c) (hroot : b ≠ N.root)
    (hb : c.phase b ≠ .idle) (ha : a ∈ N.needs b) :
    (c.phase a).Finished := by
  obtain ⟨hdue, hbalance⟩ := h.spent a b hroot hb
  have hpos := Multiset.count_pos.mpr ha
  exact Phase.finished_of_due_lt (N.feeds a) b (by omega)

theorem not_finished_of_reach (h : Inv N c) (hb : ReflTransGen N.Edge N.root b)
    (hunfinished : ¬ (c.phase b).Finished) (hba : ReflTransGen N.Edge b a) :
    ¬ (c.phase a).Finished := by
  induction hba with
  | refl => exact hunfinished
  | @tail x y hbx hxy ih =>
      intro hy
      apply ih
      have hx : ReflTransGen N.Edge N.root x := hb.trans hbx
      have hroot : y ≠ N.root := by
        rintro rfl
        exact N.not_edge_root hx hxy
      have hne : x ≠ y := by
        rintro rfl
        exact N.not_edge_self hx hxy
      have hidle : c.phase y ≠ .idle := by
        intro hidle
        simp [hidle, Phase.Finished] at hy
      have hle := N.feeds_le x y hne
      have hpos := Multiset.count_pos.mpr hxy
      exact h.finished_of_mem_needs hroot hidle (Multiset.count_pos.mp (by omega))

/-- Once every need of a node has sent all its reports, the node has been
released exactly when it has successors of its own and is reported to as often
as it waits. -/
theorem phase_ne_idle_iff (h : Inv N c) (hroot : b ≠ N.root)
    (hneeds : N.needs b ≠ 0) (htold : ∀ a ∈ N.needs b, (c.phase a).Told) :
    c.phase b ≠ .idle ↔
      N.feeds b ≠ 0 ∧ ∀ a, (N.feeds a).count b = (N.needs b).count a := by
  constructor
  · intro hb
    exact ⟨fun hfeeds ↦ hb (h.sink b hroot hfeeds),
      fun a ↦ (h.spent a b hroot hb).2⟩
  · rintro ⟨hfeeds, hbalance⟩ hidle
    apply h.armed b hroot hneeds hidle
    refine Multiset.eq_zero_of_forall_notMem fun a ha ↦ ?_
    have hledger := h.ledger a b hroot hfeeds hidle
    have hpos := Multiset.count_pos.mpr ha
    have hdue : (c.phase a).due (N.feeds a) b = 0 := by
      by_cases hmem : a ∈ N.needs b
      · exact (htold a hmem).due_eq_zero _ _
      · have howed := h.owed a b
        rw [hbalance a, Multiset.count_eq_zero_of_notMem hmem] at howed
        omega
    have := hbalance a
    omega

/-- A phase change of one node that owes the same to every node that listens
keeps the ledger. -/
theorem setPhase {p : Phase ν} (h : Inv N c)
    (hreach : ReflTransGen N.Edge N.root a)
    (hold : a ≠ N.root → c.phase a ≠ .idle) (hnew : p ≠ .idle)
    (howed : ∀ b, p.due (N.feeds a) b ≤ (N.feeds a).count b)
    (hdue : ∀ b, b ≠ N.root → N.feeds b ≠ 0 →
      p.due (N.feeds a) b = (c.phase a).due (N.feeds a) b) :
    Inv N (c.setPhase a p) := by
  have hidle : ∀ b, b ≠ N.root →
      ((c.setPhase a p).phase b = .idle ↔ c.phase b = .idle) := by
    intro b hroot
    by_cases hb : b = a
    · subst hb
      simp [Config.setPhase, hold hroot, hnew]
    · simp [Config.setPhase, hb]
  have hdues : ∀ x b, b ≠ N.root → N.feeds b ≠ 0 →
      ((c.setPhase a p).phase x).due (N.feeds x) b =
        (c.phase x).due (N.feeds x) b := by
    intro x b hroot hfeeds
    by_cases hx : x = a
    · subst hx
      simpa [Config.setPhase] using hdue b hroot hfeeds
    · simp [Config.setPhase, hx]
  constructor
  · intro b hb
    by_cases hba : b = a
    · exact hba ▸ hreach
    · exact h.reach b (by simpa [Config.setPhase, hba] using hb)
  · intro x b
    by_cases hx : x = a
    · subst hx
      simpa [Config.setPhase] using howed b
    · simpa [Config.setPhase, hx] using h.owed x b
  · intro b hroot hfeeds
    exact (hidle b hroot).mpr (h.sink b hroot hfeeds)
  · intro x b hroot hfeeds hb
    rw [hdues x b hroot hfeeds]
    exact h.ledger x b hroot hfeeds ((hidle b hroot).mp hb)
  · intro x b hroot hb
    have hcb : c.phase b ≠ .idle := fun hcb ↦ hb ((hidle b hroot).mpr hcb)
    have hfeeds : N.feeds b ≠ 0 := fun hfeeds ↦ hcb (h.sink b hroot hfeeds)
    rw [hdues x b hroot hfeeds]
    exact h.spent x b hroot hcb
  · intro b hroot hneeds hb
    exact h.armed b hroot hneeds ((hidle b hroot).mp hb)

theorem ledger_tell (h : Inv N c) (ha : c.phase a = .telling (b ::ₘ rest))
    (hb : N.feeds b ≠ 0) (x : ν) :
    ((c.waits b).erase a).count x + (N.feeds x).count b =
      (N.needs b).count x + ((c.tell a b rest).phase x).due (N.feeds x) b := by
  obtain ⟨-, -, hroot, hidle⟩ := h.idle_of_telling ha
  have h₁ := h.ledger x b hroot hb hidle
  have h₂ := Config.due_tell ha hidle (N.feeds x) x b
  have h₃ := Config.count_erase_add (h.mem_waits_of_telling ha hb) x
  simp only [and_true] at h₂
  omega

/-- The last report to a node closes its ledger: nothing is due any more, and
its two bags agreed. -/
theorem spent_tell (h : Inv N c) (ha : c.phase a = .telling (b ::ₘ rest))
    (hb : N.feeds b ≠ 0) (hlast : (c.waits b).erase a = 0) (x : ν) :
    ((c.tell a b rest).phase x).due (N.feeds x) b = 0 ∧
      (N.feeds x).count b = (N.needs b).count x := by
  obtain ⟨hreach, -, -, -⟩ := h.idle_of_telling ha
  have h₁ := h.ledger_tell ha hb x
  rw [hlast, Multiset.count_zero] at h₁
  by_cases hxb : x = b
  · subst hxb
    have hself : (N.feeds x).count x = 0 :=
      Multiset.count_eq_zero.mpr (N.not_edge_self hreach)
    omega
  · have h₂ := N.feeds_le x b hxb
    omega

/-- A report to a listening node keeps the ledger.  Its addressee leaves `idle`
only when every other report to it is out. -/
theorem tell (h : Inv N c) (ha : c.phase a = .telling (b ::ₘ rest))
    (hb : N.feeds b ≠ 0) : Inv N (c.tell a b rest) := by
  obtain ⟨hreach, hne, hroot, hidle⟩ := h.idle_of_telling ha
  have hdue := Config.due_tell ha hidle
  constructor
  · intro x hx
    by_cases hxb : x = b
    · exact hxb ▸ hreach
    · by_cases hxa : x = a
      · exact h.reach x (by simp [hxa, ha])
      · exact h.reach x (Config.tell_phase_of_ne hxa hxb ▸ hx)
  · intro x y
    have h₁ := hdue (N.feeds x) x y
    have h₂ := h.owed x y
    omega
  · intro y hy hfeeds
    have hya : y ≠ a := by
      rintro rfl
      simp [h.sink y hy hfeeds] at ha
    have hyb : y ≠ b := by
      rintro rfl
      exact hb hfeeds
    rw [Config.tell_phase_of_ne hya hyb]
    exact h.sink y hy hfeeds
  · intro x y hy hfeeds hyidle
    by_cases hyb : y = b
    · subst hyb
      simpa [Config.tell] using h.ledger_tell ha hb x
    · have hya : y ≠ a := by
        rintro rfl
        simp [Config.tell_phase_sender hne.symm] at hyidle
      have h₁ := h.ledger x y hy hfeeds (Config.tell_phase_of_ne hya hyb ▸ hyidle)
      have h₂ := hdue (N.feeds x) x y
      simp only [hyb, and_false, if_false] at h₂
      simp only [Config.tell, Function.update_of_ne hyb] at h₁ h₂ ⊢
      omega
  · intro x y hy hyidle
    by_cases hyb : y = b
    · subst hyb
      apply h.spent_tell ha hb
      by_contra hzero
      simp [Config.tell_phase_addressee, hzero] at hyidle
    · have hcy : c.phase y ≠ .idle := by
        by_cases hya : y = a
        · simp [hya, ha]
        · exact Config.tell_phase_of_ne hya hyb ▸ hyidle
      have h₁ := h.spent x y hy hcy
      have h₂ := hdue (N.feeds x) x y
      exact ⟨by omega, h₁.2⟩
  · intro y hy hneeds hyidle
    by_cases hyb : y = b
    · subst hyb
      intro hzero
      have hzero' : (c.waits y).erase a = 0 := by
        simpa [Config.tell] using hzero
      simp [Config.tell_phase_addressee, hzero'] at hyidle
    · have hya : y ≠ a := by
        rintro rfl
        simp [Config.tell_phase_sender hne.symm] at hyidle
      simpa [Config.tell, hyb] using
        h.armed y hy hneeds (Config.tell_phase_of_ne hya hyb ▸ hyidle)

theorem step {c' : Config ν} (h : Inv N c) (hstep : Step N c c') :
    Inv N c' := by
  cases hstep with
  | launch hroot =>
      refine h.setPhase .refl (fun hne ↦ (hne rfl).elim) (by simp)
        (fun b ↦ le_rfl) ?_
      intro b _ _
      simp [hroot, Phase.due]
  | begin a ha =>
      refine h.setPhase (h.reach a (by simp [ha])) (by simp [ha]) (by simp)
        (fun b ↦ le_rfl) ?_
      intro b _ _
      simp [ha, Phase.due]
  | finish a ha =>
      refine h.setPhase (h.reach a (by simp [ha])) (by simp [ha]) (by simp)
        (fun b ↦ le_rfl) ?_
      intro b _ _
      simp [ha, Phase.due]
  | skip a b rest ha hb =>
      have howed := h.owed a
      simp only [ha, Phase.due] at howed
      refine h.setPhase (h.reach a (by simp [ha])) (by simp [ha]) (by simp)
        (fun x ↦ (Multiset.count_le_of_le x (Multiset.le_cons_self rest b)).trans
          (howed x)) ?_
      intro x _ hx
      have hxb : x ≠ b := by
        rintro rfl
        exact hx hb
      simp [ha, Phase.due, Multiset.count_cons_of_ne hxb]
  | tell a b rest ha hb _ => exact h.tell ha hb
  | retire a ha =>
      refine h.setPhase (h.reach a (by simp [ha])) (by simp [ha]) (by simp)
        (fun b ↦ Nat.zero_le _) ?_
      intro b _ _
      simp [ha, Phase.due]

theorem steps {c' : Config ν} (h : Inv N c)
    (hsteps : ReflTransGen (Step N) c c') : Inv N c' := by
  induction hsteps with
  | refl => exact h
  | tail _ hstep ih => exact ih.step hstep

end Inv

/-! ## Tokens

A machine that keeps its activities in queues and call stacks has, for every
node, either no trace of it or exactly one: a token in some queue or frame.
`Represents` says that a bag of tokens is the bag the phases call for. -/

/-- The trace an active node leaves in a machine. -/
inductive Token (ν : Type*) where
  | queued (a : ν)
  | running (a : ν)
  | telling (a : ν) (rest : Multiset ν)

def Token.node : Token ν → ν
  | .queued a | .running a | .telling a _ => a

def Token.phase : Token ν → Phase ν
  | .queued _ => .queued
  | .running _ => .running
  | .telling _ rest => .telling rest

/-- The tokens a node in a given phase leaves. -/
def Phase.tokens (a : ν) : Phase ν → Multiset (Token ν)
  | .idle | .retired => 0
  | .queued => {.queued a}
  | .running => {.running a}
  | .telling rest => {.telling a rest}

omit [DecidableEq ν] in
theorem Phase.eq_of_mem_tokens {p : Phase ν} {a : ν} {k : Token ν}
    (h : k ∈ p.tokens a) : p = k.phase ∧ p.tokens a = {k} := by
  cases p <;> simp_all [Phase.tokens, Token.phase]

/-- The machine's tokens are exactly those its phases call for. -/
def Represents (soup : Multiset (Token ν)) (phase : ν → Phase ν) : Prop :=
  ∀ a, soup.filter (fun k ↦ k.node = a) = (phase a).tokens a

namespace Represents

variable {soup : Multiset (Token ν)} {phase : ν → Phase ν} {k l : Token ν}

theorem mem_tokens (h : Represents soup phase) (hk : k ∈ soup) :
    k ∈ (phase k.node).tokens k.node := by
  rw [← h k.node]
  exact Multiset.mem_filter.mpr ⟨hk, rfl⟩

theorem phase_eq (h : Represents (k ::ₘ soup) phase) :
    phase k.node = k.phase ∧ soup.filter (fun l ↦ l.node = k.node) = 0 := by
  have hk := h k.node
  rw [Multiset.filter_cons_of_pos soup (p := fun l ↦ l.node = k.node) rfl] at hk
  have hmem : k ∈ (phase k.node).tokens k.node := hk ▸ Multiset.mem_cons_self _ _
  obtain ⟨hphase, htokens⟩ := Phase.eq_of_mem_tokens hmem
  rw [htokens, ← Multiset.cons_zero, Multiset.cons_inj_right] at hk
  exact ⟨hphase, hk⟩

theorem remove (h : Represents (k ::ₘ soup) phase) {p : Phase ν}
    (hp : p.tokens k.node = 0) :
    Represents soup (Function.update phase k.node p) := by
  intro a
  by_cases ha : a = k.node
  · subst ha
    rw [Function.update_self, hp]
    exact h.phase_eq.2
  · rw [Function.update_of_ne ha, ← h a,
      Multiset.filter_cons_of_neg _ (fun hk ↦ ha hk.symm)]

theorem add (h : Represents soup phase)
    (hnone : (phase k.node).tokens k.node = 0) :
    Represents (k ::ₘ soup) (Function.update phase k.node k.phase) := by
  intro a
  by_cases ha : a = k.node
  · subst ha
    rw [Function.update_self,
      Multiset.filter_cons_of_pos soup (p := fun l ↦ l.node = k.node) rfl,
      h, hnone]
    cases k <;> rfl
  · rw [Function.update_of_ne ha,
      Multiset.filter_cons_of_neg _ (fun hk ↦ ha hk.symm), h a]

theorem replace (h : Represents (k ::ₘ soup) phase) (hnode : l.node = k.node) :
    Represents (l ::ₘ soup) (Function.update phase k.node l.phase) := by
  have hgone := h.remove (p := .idle) rfl
  rw [← hnode] at hgone
  simpa [hnode] using hgone.add (k := l) (by simp [Phase.tokens])

end Represents

end HiApp.Countdown
