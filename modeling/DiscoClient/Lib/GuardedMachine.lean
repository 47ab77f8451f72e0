import Mathlib.Data.List.Basic
import Mathlib.Logic.Function.Basic

/-! Deterministic machines with guarded events. A run is a list of events, each
enabled in the state it is taken from; the event history is kept by the list. -/

structure GuardedMachine (σ ε : Type*) where
  enabled : σ → ε → Prop
  step : σ → ε → σ

namespace GuardedMachine
variable {σ ε : Type*} (m : GuardedMachine σ ε)

def exec (s : σ) (es : List ε) : σ := es.foldl m.step s

def Legal : σ → List ε → Prop
  | _, [] => True
  | s, e :: es => m.enabled s e ∧ Legal (m.step s e) es

def restrict (g : σ → ε → Prop) : GuardedMachine σ ε where
  enabled s e := m.enabled s e ∧ g s e
  step := m.step

instance decidableRestrict {g : σ → ε → Prop} (s : σ) (e : ε)
    [Decidable (m.enabled s e)] [Decidable (g s e)] :
    Decidable ((m.restrict g).enabled s e) :=
  inferInstanceAs (Decidable (_ ∧ _))

instance decidableLegal [h : ∀ s e, Decidable (m.enabled s e)] :
    ∀ (s : σ) (es : List ε), Decidable (m.Legal s es)
  | _, [] => isTrue trivial
  | s, e :: es =>
    match h s e, decidableLegal (m.step s e) es with
    | isTrue he, isTrue hs => isTrue ⟨he, hs⟩
    | isFalse he, _ => isFalse fun hl => he hl.1
    | _, isFalse hs => isFalse fun hl => hs hl.2

@[simp] theorem exec_nil (s : σ) : m.exec s [] = s := rfl

@[simp] theorem exec_cons (s : σ) (e : ε) (es : List ε) :
    m.exec s (e :: es) = m.exec (m.step s e) es := rfl

@[simp] theorem legal_nil (s : σ) : m.Legal s [] := trivial

@[simp] theorem legal_cons (s : σ) (e : ε) (es : List ε) :
    m.Legal s (e :: es) ↔ m.enabled s e ∧ m.Legal (m.step s e) es := Iff.rfl

theorem exec_append (s : σ) (es fs : List ε) : m.exec s (es ++ fs) = m.exec (m.exec s es) fs :=
  List.foldl_append

theorem legal_append (s : σ) (es fs : List ε) :
    m.Legal s (es ++ fs) ↔ m.Legal s es ∧ m.Legal (m.exec s es) fs := by
  induction es generalizing s with
  | nil => simp
  | cons e es ih => simp [ih, and_assoc]

variable {m}

/-- A property of the history and the state that every enabled step extends
holds at the end of every legal run. -/
theorem exec_history {R : List ε → σ → Prop} {s : σ} (hinit : R [] s)
    (hstep : ∀ past t e, R past t → m.enabled t e → R (past ++ [e]) (m.step t e))
    {es : List ε} (h : m.Legal s es) : R es (m.exec s es) := by
  have general (past : List ε) (t : σ) (es : List ε) (hR : R past t) (hl : m.Legal t es) :
      R (past ++ es) (m.exec t es) := by
    induction es generalizing past t with
    | nil => simpa using hR
    | cons e es ih =>
      have hn := ih (past ++ [e]) (m.step t e) (hstep past t e hR hl.1) hl.2
      simpa using hn
  simpa using general [] s es hinit h

theorem restrict_legal_congr {g h : σ → ε → Prop} {I : σ → Prop} {s : σ} (hinit : I s)
    (hiff : ∀ t e, I t → m.enabled t e → (g t e ↔ h t e))
    (hstep : ∀ t e, I t → m.enabled t e → h t e → I (m.step t e)) {es : List ε} :
    (m.restrict g).Legal s es ↔ (m.restrict h).Legal s es := by
  induction es generalizing s with
  | nil => exact Iff.rfl
  | cons e es ih =>
    rw [legal_cons, legal_cons]
    constructor
    · rintro ⟨⟨he, hg⟩, hrest⟩
      have hh := (hiff s e hinit he).mp hg
      exact ⟨⟨he, hh⟩, (ih (hstep s e hinit he hh)).mp hrest⟩
    · rintro ⟨⟨he, hh⟩, hrest⟩
      exact ⟨⟨he, (hiff s e hinit he).mpr hh⟩, (ih (hstep s e hinit he hh)).mpr hrest⟩

theorem exec_invariant {I : σ → Prop} {s : σ} (hinit : I s)
    (hstep : ∀ t e, I t → m.enabled t e → I (m.step t e))
    {es : List ε} (h : m.Legal s es) : I (m.exec s es) :=
  exec_history (R := fun _ t => I t) hinit (fun _ t e ht he => hstep t e ht he) h

theorem exists_legal_of_progress {I : σ → Prop} {μ : σ → Nat}
    (hprogress : ∀ t, I t → 0 < μ t → ∃ e, m.enabled t e ∧ I (m.step t e) ∧ μ (m.step t e) < μ t)
    (s : σ) (hs : I s) : ∃ es, m.Legal s es ∧ I (m.exec s es) ∧ μ (m.exec s es) = 0 := by
  induction hn : μ s using Nat.strongRecOn generalizing s with
  | ind n ih =>
    subst hn
    rcases Nat.eq_zero_or_pos (μ s) with hzero | hpos
    · exact ⟨[], trivial, hs, hzero⟩
    · obtain ⟨e, he, hI, hlt⟩ := hprogress s hs hpos
      obtain ⟨es, hlegal, hend, hmu⟩ := ih _ hlt _ hI rfl
      exact ⟨e :: es, ⟨he, hlegal⟩, hend, hmu⟩

end GuardedMachine
