import Mathlib.Data.List.Basic
import Mathlib.Data.List.Induction
import Mathlib.Data.List.Perm.Basic
import Mathlib.Logic.Function.Basic

/-!
# Runs of a partial step function

A step refuses an action or leads to one next state, so the environment's
choices all live in the action list. An invariant proved for one step
holds along every run; a step condition restricts which runs are meant.
-/

namespace Library

variable {σ α : Type*} (step : σ → α → Option σ)

/-- The state after a list of actions, `none` when one of them is refused. -/
def exec : σ → List α → Option σ
  | s, [] => some s
  | s, a :: as => (step s a).bind fun t => exec t as

@[simp] theorem exec_nil (s : σ) : exec step s [] = some s := rfl

variable {step}

theorem exec_cons_iff {s u : σ} {a : α} {as : List α} :
    exec step s (a :: as) = some u ↔ ∃ t, step s a = some t ∧ exec step t as = some u := by
  simp [exec, Option.bind_eq_some_iff]

theorem exec_append_iff {s u : σ} {as bs : List α} :
    exec step s (as ++ bs) = some u ↔
      ∃ t, exec step s as = some t ∧ exec step t bs = some u := by
  induction as generalizing s with
  | nil => simp
  | cons a as ih =>
      simp only [List.cons_append, exec_cons_iff, ih]
      constructor
      · rintro ⟨v, hv, t, ht, hu⟩
        exact ⟨t, ⟨v, hv, ht⟩, hu⟩
      · rintro ⟨t, ⟨v, hv, ht⟩, hu⟩
        exact ⟨v, hv, t, ht, hu⟩

@[simp] theorem exec_singleton (s : σ) (a : α) : exec step s [a] = step s a := by
  simp [exec]

theorem exec_total (htotal : ∀ s a, ∃ t, step s a = some t) (s : σ) (as : List α) :
    ∃ t, exec step s as = some t := by
  induction as generalizing s with
  | nil => exact ⟨s, rfl⟩
  | cons a as ih =>
      obtain ⟨u, hu⟩ := htotal s a
      obtain ⟨t, ht⟩ := ih u
      exact ⟨t, exec_cons_iff.mpr ⟨u, hu, ht⟩⟩

theorem exec_invariant {I : σ → Prop} (hstep : ∀ s a t, I s → step s a = some t → I t)
    {s t : σ} {as : List α} (hs : I s) (h : exec step s as = some t) : I t := by
  induction as generalizing s with
  | nil => exact Option.some.inj h ▸ hs
  | cons a as ih =>
      obtain ⟨u, hu, ht⟩ := exec_cons_iff.mp h
      exact ih (hstep s a u hs hu) ht

/-- An invariant that may speak of the run so far. -/
theorem exec_trace {I : List α → σ → Prop} {s : σ} (hs : I [] s)
    (hstep : ∀ before u a v, exec step s before = some u → I before u → step u a = some v →
      I (before ++ [a]) v) {t : σ} {as : List α} (h : exec step s as = some t) : I as t := by
  induction as using List.reverseRecOn generalizing t with
  | nil => exact Option.some.inj h ▸ hs
  | append_singleton before a ih =>
      obtain ⟨u, hu, ht⟩ := exec_append_iff.mp h
      rw [exec_singleton] at ht
      exact hstep before u a t hu (ih hu) ht

/-- A transitive relation between the two ends of each step, proved under an
invariant, relates the two ends of every run. -/
theorem exec_relation {I : σ → Prop} {R : σ → σ → Prop} (hrefl : ∀ s, R s s)
    (htrans : ∀ s t u, R s t → R t u → R s u)
    (hinv : ∀ s a t, I s → step s a = some t → I t)
    (hstep : ∀ s a t, I s → step s a = some t → R s t)
    {s t : σ} {as : List α} (hs : I s) (h : exec step s as = some t) : R s t := by
  induction as generalizing s with
  | nil => exact Option.some.inj h ▸ hrefl s
  | cons a as ih =>
      obtain ⟨u, hu, ht⟩ := exec_cons_iff.mp h
      exact htrans s u t (hstep s a u hs hu) (ih (hinv s a u hs hu) ht)

theorem exec_keeps_or_ends (P : σ → Prop) {s t : σ} {as : List α} (hs : P s)
    (h : exec step s as = some t) :
    P t ∨ ∃ pre a post u v, as = pre ++ a :: post ∧ exec step s pre = some u ∧ P u ∧
      step u a = some v ∧ ¬ P v := by
  induction as generalizing s with
  | nil => exact .inl (Option.some.inj h ▸ hs)
  | cons a as ih =>
      obtain ⟨u, hu, ht⟩ := exec_cons_iff.mp h
      by_cases hkept : P u
      · rcases ih hkept ht with hend | ⟨pre, b, post, v, w, rfl, hpre, hv, hw, hlost⟩
        · exact .inl hend
        · exact .inr ⟨a :: pre, b, post, v, w, rfl, exec_cons_iff.mpr ⟨u, hu, hpre⟩, hv, hw, hlost⟩
      · exact .inr ⟨[], a, as, s, u, rfl, rfl, hs, hu, hkept⟩

variable (step)

/-- Every action of the run is taken in a state that meets the condition. -/
def Along (good : σ → α → Prop) : σ → List α → Prop
  | _, [] => True
  | s, a :: as => good s a ∧ ∀ t, step s a = some t → Along good t as

instance Along.decidable {good : σ → α → Prop} [∀ s a, Decidable (good s a)] :
    ∀ (s : σ) (as : List α), Decidable (Along step good s as)
  | _, [] => .isTrue trivial
  | s, a :: as =>
      match h : step s a with
      | none => decidable_of_iff (good s a) (by simp [Along, h])
      | some t =>
          haveI : Decidable (Along step good t as) := Along.decidable t as
          decidable_of_iff (good s a ∧ Along step good t as) (by simp [Along, h])

variable {step}

/-- The conditional invariant rule: only steps that meet the condition need
to preserve the invariant. -/
theorem exec_invariant_along {I : σ → Prop} {good : σ → α → Prop}
    (hstep : ∀ s a t, I s → good s a → step s a = some t → I t)
    {s t : σ} {as : List α} (hs : I s) (hgood : Along step good s as)
    (h : exec step s as = some t) : I t := by
  induction as generalizing s with
  | nil => exact Option.some.inj h ▸ hs
  | cons a as ih =>
      obtain ⟨u, hu, ht⟩ := exec_cons_iff.mp h
      exact ih (hstep s a u hs hgood.1 hu) (hgood.2 u hu) ht

/-- Where no step that meets the condition is refused, the run goes through. -/
theorem exec_exists_along {I : σ → Prop} {good : σ → α → Prop}
    (hstep : ∀ s a, I s → good s a → ∃ t, step s a = some t ∧ I t)
    {s : σ} {as : List α} (hs : I s) (hgood : Along step good s as) :
    ∃ t, exec step s as = some t ∧ I t := by
  induction as generalizing s with
  | nil => exact ⟨s, rfl, hs⟩
  | cons a as ih =>
      obtain ⟨u, hu, hinv⟩ := hstep s a hs hgood.1
      obtain ⟨t, ht, hend⟩ := ih hinv (hgood.2 u hu)
      exact ⟨t, exec_cons_iff.mpr ⟨u, hu, ht⟩, hend⟩

/-- A map that commutes with every step of the run commutes with the run. -/
theorem exec_map {τ : Type*} {step' : τ → α → Option τ} {I : σ → Prop} {good : σ → α → Prop}
    (f : σ → τ) (hinv : ∀ s a t, I s → good s a → step s a = some t → I t)
    (hmap : ∀ s a, I s → good s a → step' (f s) a = (step s a).map f) {s : σ} {as : List α}
    (hs : I s) (hgood : Along step good s as) :
    exec step' (f s) as = (exec step s as).map f := by
  induction as generalizing s with
  | nil => rfl
  | cons a as ih =>
      rw [exec, exec, hmap s a hs hgood.1]
      cases hstep : step s a with
      | none => rfl
      | some t => exact ih (hinv s a t hs hgood.1 hstep) (hgood.2 t hstep)

/-- Forward simulation: each step is matched by a run of the other machine. -/
theorem exec_simulation {τ β : Type*} {step' : τ → β → Option τ} {R : σ → τ → Prop}
    {good : σ → α → Prop}
    (hsim : ∀ s t a s', R s t → good s a → step s a = some s' →
      ∃ bs t', exec step' t bs = some t' ∧ R s' t')
    {s s' : σ} {t : τ} {as : List α} (hR : R s t) (hgood : Along step good s as)
    (h : exec step s as = some s') : ∃ bs t', exec step' t bs = some t' ∧ R s' t' := by
  induction as generalizing s t with
  | nil => exact ⟨[], t, rfl, Option.some.inj h ▸ hR⟩
  | cons a as ih =>
      obtain ⟨u, hu, hrest⟩ := exec_cons_iff.mp h
      obtain ⟨bs, v, hv, hRv⟩ := hsim s t a u hR hgood.1 hu
      obtain ⟨bs', t', ht', hRt⟩ := ih hRv (hgood.2 u hu) hrest
      exact ⟨bs ++ bs', t', exec_append_iff.mpr ⟨v, hv, ht'⟩, hRt⟩

theorem along_of_forall_mem {good : σ → α → Prop} {s : σ} {as : List α}
    (h : ∀ a ∈ as, ∀ s, good s a) : Along step good s as := by
  induction as generalizing s with
  | nil => trivial
  | cons a as ih =>
      exact ⟨h a (by simp) s, fun t _ => ih fun b hb => h b (List.mem_cons_of_mem a hb)⟩

theorem along_append_iff {good : σ → α → Prop} {s : σ} {as bs : List α} :
    Along step good s (as ++ bs) ↔
      Along step good s as ∧ ∀ t, exec step s as = some t → Along step good t bs := by
  induction as generalizing s with
  | nil => simp [Along]
  | cons a as ih =>
      simp only [List.cons_append, Along, exec_cons_iff, ih]
      constructor
      · rintro ⟨hgood, hrest⟩
        refine ⟨⟨hgood, fun u hu => (hrest u hu).1⟩, ?_⟩
        rintro t ⟨u, hu, ht⟩
        exact (hrest u hu).2 t ht
      · rintro ⟨⟨hgood, has⟩, hbs⟩
        exact ⟨hgood, fun u hu => ⟨has u hu, fun t ht => hbs t ⟨u, hu, ht⟩⟩⟩

theorem Along.mono {I : σ → Prop} {good good' : σ → α → Prop}
    (himp : ∀ s a, I s → good s a → good' s a)
    (hstep : ∀ s a t, I s → good s a → step s a = some t → I t) {s : σ} {as : List α}
    (hs : I s) (h : Along step good s as) : Along step good' s as := by
  induction as generalizing s with
  | nil => trivial
  | cons a as ih =>
      obtain ⟨hgood, hrest⟩ := h
      exact ⟨himp s a hs hgood, fun t ht => ih (hstep s a t hs hgood ht) (hrest t ht)⟩

theorem Along.imp {good good' : σ → α → Prop} (himp : ∀ s a, good s a → good' s a) {s : σ}
    {as : List α} (h : Along step good s as) : Along step good' s as :=
  h.mono (I := fun _ => True) (fun s a _ => himp s a) (fun _ _ _ _ _ _ => trivial) trivial

theorem Along.and {good good' : σ → α → Prop} {s : σ} {as : List α} (h : Along step good s as)
    (h' : Along step good' s as) : Along step (fun s a => good s a ∧ good' s a) s as := by
  induction as generalizing s with
  | nil => trivial
  | cons a as ih => exact ⟨⟨h.1, h'.1⟩, fun t ht => ih (h.2 t ht) (h'.2 t ht)⟩

/-- Two step conditions that agree in every state of an invariant restrict the
runs in the same way, when the second carries the invariant. -/
theorem along_iff {I : σ → Prop} {good good' : σ → α → Prop}
    (hiff : ∀ s a, I s → (good s a ↔ good' s a))
    (hstep : ∀ s a t, I s → good' s a → step s a = some t → I t) {s : σ} (hs : I s)
    (as : List α) : Along step good s as ↔ Along step good' s as := by
  constructor
  · apply Along.mono (fun s a hs => (hiff s a hs).mp) _ hs
    intro s a t hs hgood ht
    exact hstep s a t hs ((hiff s a hs).mp hgood) ht
  · exact Along.mono (fun s a hs => (hiff s a hs).mpr) hstep hs

/-- Two machines that go in step, with conditions that agree in related states,
restrict the runs in the same way. -/
theorem along_iff_lockstep {τ : Type*} {step' : τ → α → Option τ} {R : σ → τ → Prop}
    {good : σ → α → Prop} {good' : τ → α → Prop}
    (hgood : ∀ s t a, R s t → (good s a ↔ good' t a))
    (hstep : ∀ s t a, R s t → ∃ s' t', step s a = some s' ∧ step' t a = some t' ∧ R s' t')
    {s : σ} {t : τ} (h : R s t) (as : List α) :
    Along step good s as ↔ Along step' good' t as := by
  induction as generalizing s t with
  | nil => exact Iff.rfl
  | cons a as ih =>
      obtain ⟨s', t', hs, ht, hnext⟩ := hstep s t a h
      simp only [Along, hs, ht, Option.some.injEq, forall_eq']
      rw [hgood s t a h, ih hnext]

/-- Where a step keeps the invariant exactly when it meets the condition, a run
meets the condition exactly when the invariant holds in all of its states. -/
theorem along_iff_invariant {I : σ → Prop} {good : σ → α → Prop}
    (htotal : ∀ s a, ∃ t, step s a = some t)
    (hstep : ∀ s a t, I s → step s a = some t → (good s a ↔ I t)) {s : σ} (hs : I s)
    (as : List α) :
    Along step good s as ↔
      ∀ pre post t, as = pre ++ post → exec step s pre = some t → I t := by
  induction as generalizing s with
  | nil =>
      refine iff_of_true trivial fun pre post t happend ht => ?_
      obtain ⟨rfl, -⟩ := List.append_eq_nil_iff.mp happend.symm
      exact Option.some.inj ht ▸ hs
  | cons a as ih =>
      obtain ⟨u, hu⟩ := htotal s a
      constructor
      · rintro ⟨hgood, hrest⟩ pre post t happend ht
        cases pre with
        | nil => exact Option.some.inj ht ▸ hs
        | cons b pre =>
            obtain ⟨rfl, htail⟩ := List.cons.inj happend
            obtain ⟨u', hu', ht⟩ := exec_cons_iff.mp ht
            obtain rfl := Option.some.inj (hu'.symm.trans hu)
            exact (ih ((hstep s a u' hs hu).mp hgood)).mp (hrest u' hu) pre post t htail ht
      · intro hall
        have hnext : I u := hall [a] as u rfl (by rw [exec_singleton, hu])
        refine ⟨(hstep s a u hs hu).mpr hnext, fun t ht => ?_⟩
        obtain rfl := Option.some.inj (ht.symm.trans hu)
        refine (ih hnext).mpr fun pre post v happend hv => ?_
        exact hall (a :: pre) post v (by rw [happend]; rfl) (exec_cons_iff.mpr ⟨t, hu, hv⟩)

/-- Steps that break the condition lead into a trap, so a run that ends
outside it never breaks the condition. -/
theorem along_of_trap {I trap : σ → Prop} {good : σ → α → Prop}
    (hstep : ∀ s a t, I s → good s a → step s a = some t → I t)
    (hbad : ∀ s a t, I s → ¬ good s a → step s a = some t → trap t)
    (htrap : ∀ s a t, trap s → step s a = some t → trap t) {s t : σ} {as : List α} (hs : I s)
    (h : exec step s as = some t) (hend : ¬ trap t) : Along step good s as := by
  induction as generalizing s with
  | nil => trivial
  | cons a as ih =>
      obtain ⟨u, hu, ht⟩ := exec_cons_iff.mp h
      by_cases hgood : good s a
      · refine ⟨hgood, fun v hv => ?_⟩
        obtain rfl := Option.some.inj (hu.symm.trans hv)
        exact ih (hstep s a u hs hgood hu) ht
      · exact (hend (exec_invariant htrap (hbad s a u hs hgood hu) ht)).elim

/-- A measure that the counted actions lower and the others do not raise bounds
how many of them a run has. -/
theorem exec_countP_le {I : σ → Prop} {good : σ → α → Prop} (p : α → Bool) (measure : σ → ℕ)
    (hinv : ∀ s a t, I s → good s a → step s a = some t → I t)
    (hstep : ∀ s a t, I s → good s a → step s a = some t →
      measure t + (if p a then 1 else 0) ≤ measure s)
    {s t : σ} {as : List α} (hs : I s) (hgood : Along step good s as)
    (h : exec step s as = some t) : as.countP p + measure t ≤ measure s := by
  induction as generalizing s with
  | nil =>
      cases h
      simp
  | cons a as ih =>
      obtain ⟨u, hu, ht⟩ := exec_cons_iff.mp h
      have hfirst := hstep s a u hs hgood.1 hu
      have hrest := ih (hinv s a u hs hgood.1 hu) (hgood.2 u hu) ht
      rw [List.countP_cons]
      omega

theorem exec_length_le {I : σ → Prop} {good : σ → α → Prop} (measure : σ → ℕ)
    (hinv : ∀ s a t, I s → good s a → step s a = some t → I t)
    (hstep : ∀ s a t, I s → good s a → step s a = some t → measure t < measure s)
    {s t : σ} {as : List α} (hs : I s) (hgood : Along step good s as)
    (h : exec step s as = some t) : as.length + measure t ≤ measure s := by
  have hcount := exec_countP_le (fun _ => true) measure hinv
    (fun s a t hs hgood hu => Nat.succ_le_of_lt (hstep s a t hs hgood hu)) hs hgood h
  simpa using hcount

variable (step)

/-- The run ends with steps that all meet the condition, from a state of the kind. -/
def Lately (good : σ → α → Prop) (start : σ) (as : List α) (P : σ → Prop) : Prop :=
  ∃ before after w, as = before ++ after ∧ exec step start before = some w ∧
    Along step good w after ∧ P w

variable {step}

theorem Lately.of_now {good : σ → α → Prop} {P : σ → Prop} {start s : σ} {as : List α}
    (h : exec step start as = some s) (hP : P s) : Lately step good start as P :=
  ⟨as, [], s, by simp, h, trivial, hP⟩

theorem Lately.append {good : σ → α → Prop} {P Q : σ → Prop} {start s : σ} {as : List α} {a : α}
    (h : Lately step good start as P) (hs : exec step start as = some s) (hgood : good s a)
    (himp : ∀ w, P w → Q w) : Lately step good start (as ++ [a]) Q := by
  obtain ⟨before, after, w, rfl, hw, halong, hP⟩ := h
  obtain ⟨w', hw', hafter⟩ := exec_append_iff.mp hs
  obtain rfl : w = w' := Option.some.inj (hw.symm.trans hw')
  refine ⟨before, after ++ [a], w, by simp, hw, along_append_iff.mpr ⟨halong, ?_⟩, himp w hP⟩
  intro t ht
  obtain rfl : s = t := Option.some.inj (hafter.symm.trans ht)
  exact ⟨hgood, fun _ _ => trivial⟩

variable (step)

/-- The run takes a step of the kind, in the state that it has reached. -/
def Happened (start : σ) (as : List α) (Q : σ → α → Prop) : Prop :=
  ∃ before a after u, as = before ++ a :: after ∧ exec step start before = some u ∧ Q u a

variable {step}

theorem Happened.of_last {Q : σ → α → Prop} {start s : σ} {as : List α} {a : α}
    (h : exec step start as = some s) (hQ : Q s a) : Happened step start (as ++ [a]) Q :=
  ⟨as, a, [], s, rfl, h, hQ⟩

theorem Happened.append {Q : σ → α → Prop} {start : σ} {as : List α}
    (h : Happened step start as Q) (later : List α) : Happened step start (as ++ later) Q := by
  obtain ⟨before, a, after, u, rfl, hu, hQ⟩ := h
  exact ⟨before, a, after ++ later, u, by simp, hu, hQ⟩

theorem Happened.of_append {Q : σ → α → Prop} {start u : σ} {as bs : List α}
    (h : Happened step start (as ++ bs) Q) (hu : exec step start as = some u) :
    Happened step start as Q ∨ Happened step u bs Q := by
  obtain ⟨before, a, after, v, happend, hv, hQ⟩ := h
  rcases List.append_eq_append_iff.mp happend with ⟨mid, rfl, rfl⟩ | ⟨mid, rfl, hmid⟩
  · obtain ⟨u', hu', hmid⟩ := exec_append_iff.mp hv
    obtain rfl := Option.some.inj (hu.symm.trans hu')
    exact .inr ⟨mid, a, after, v, rfl, hmid, hQ⟩
  · cases mid with
    | nil =>
        obtain rfl := Option.some.inj (hv.symm.trans (by simpa using hu))
        exact .inr ⟨[], a, after, v, by simpa using hmid.symm, rfl, hQ⟩
    | cons b mid =>
        obtain ⟨rfl, -⟩ := List.cons.inj hmid
        exact .inl ⟨before, a, mid, v, rfl, hv, hQ⟩

variable (step)

/-- The total of a quantity that each step contributes along a run. -/
def tally (contribution : σ → α → σ → ℕ) : σ → List α → ℕ
  | _, [] => 0
  | s, a :: as =>
      match step s a with
      | none => 0
      | some t => contribution s a t + tally contribution t as

variable {step}

/-- A count kept beside a run, whose steps meet a condition. -/
theorem exec_counts_along {J : σ → ℕ → Prop} {good : σ → α → Prop}
    {contribution : σ → α → σ → ℕ}
    (hstep : ∀ s a t n, J s n → good s a → step s a = some t → J t (n + contribution s a t))
    {s t : σ} {n : ℕ} {as : List α} (hs : J s n) (hgood : Along step good s as)
    (h : exec step s as = some t) : J t (n + tally step contribution s as) := by
  induction as generalizing s n with
  | nil => exact Option.some.inj h ▸ hs
  | cons a as ih =>
      obtain ⟨u, hu, ht⟩ := exec_cons_iff.mp h
      have hrest := ih (hstep s a u n hs hgood.1 hu) (hgood.2 u hu) ht
      simpa [tally, hu, Nat.add_assoc] using hrest

theorem exec_counts {J : σ → ℕ → Prop} {contribution : σ → α → σ → ℕ}
    (hstep : ∀ s a t n, J s n → step s a = some t → J t (n + contribution s a t))
    {s t : σ} {n : ℕ} {as : List α} (hs : J s n) (h : exec step s as = some t) :
    J t (n + tally step contribution s as) :=
  have hall : Along step (fun _ _ => True) s as := along_of_forall_mem fun _ _ _ => trivial
  exec_counts_along (fun s a t n hs _ => hstep s a t n hs) hs hall h

theorem tally_le_along {I : σ → Prop} {good : σ → α → Prop} {contribution : σ → α → σ → ℕ}
    {bound : ℕ} (hinv : ∀ s a t, I s → good s a → step s a = some t → I t)
    (hstep : ∀ s a t, I s → good s a → step s a = some t → contribution s a t ≤ bound)
    {s : σ} {as : List α} (hs : I s) (hgood : Along step good s as) :
    tally step contribution s as ≤ bound * as.length := by
  induction as generalizing s with
  | nil => simp [tally]
  | cons a as ih =>
      rw [List.length_cons, Nat.mul_succ]
      cases hu : step s a with
      | none => simp [tally, hu]
      | some u =>
          have hone := hstep s a u hs hgood.1 hu
          have hrest := ih (hinv s a u hs hgood.1 hu) (hgood.2 u hu)
          simp only [tally, hu]
          omega

/-- Conservation: what single steps add to a level and take from it balances
over the whole run. -/
theorem tally_balance {I : σ → Prop} (level : σ → ℕ) (gain loss : σ → α → σ → ℕ)
    (hinv : ∀ s a t, I s → step s a = some t → I t)
    (hstep : ∀ s a t, I s → step s a = some t →
      level t + loss s a t = level s + gain s a t)
    {s t : σ} {as : List α} (hs : I s) (h : exec step s as = some t) :
    level t + tally step loss s as = level s + tally step gain s as := by
  induction as generalizing s with
  | nil => simp [tally, Option.some.inj h]
  | cons a as ih =>
      obtain ⟨u, hu, ht⟩ := exec_cons_iff.mp h
      have hone := hstep s a u hs hu
      have hrest := ih (hinv s a u hs hu) ht
      simp only [tally, hu]
      omega

/-- What holds of all calls in flight holds after one of them is replaced. -/
theorem calls_update {ι γ : Type*} [DecidableEq ι] {calls : ι → Option γ} {P : γ → Prop} {c : ι}
    {call : γ} (hcalls : ∀ d other, calls d = some other → P other) (hnew : P call) :
    ∀ d other, Function.update calls c (some call) d = some other → P other := by
  intro d other hother
  by_cases hd : d = c
  · subst hd
    obtain rfl : call = other := by simpa using hother
    exact hnew
  · exact hcalls d other (by simpa [hd] using hother)

section Counts

variable {γ : Type*} {calls : List γ} {i : ℕ} {call : γ}

/-- The calls that are counted: the others, and the one at the index. -/
theorem countP_eraseIdx (h : calls[i]? = some call) (p : γ → Bool) :
    calls.countP p = (calls.eraseIdx i).countP p + if p call then 1 else 0 := by
  obtain ⟨hi, rfl⟩ := List.getElem?_eq_some_iff.mp h
  rw [← (List.getElem_cons_eraseIdx_perm hi).countP_eq p, List.countP_cons]

theorem countP_set (h : calls[i]? = some call) (new : γ) (p : γ → Bool) :
    (calls.set i new).countP p = (calls.eraseIdx i).countP p + if p new then 1 else 0 := by
  obtain ⟨hi, -⟩ := List.getElem?_eq_some_iff.mp h
  rw [(List.set_perm_cons_eraseIdx hi new).countP_eq p, List.countP_cons]

end Counts

section Slots

variable {γ β : Type*} {calls : List γ} {i : ℕ} {call : γ} (f : γ → Option β)

/-- A call that the view shows stands at an index of its own there, and moves
and leaves there as it does in the list. -/
theorem filterMap_slot (h : calls[i]? = some call) {shown : β} (hf : f call = some shown) :
    ∃ j, (calls.filterMap f)[j]? = some shown ∧
      (∀ new shown', f new = some shown' →
        (calls.set i new).filterMap f = (calls.filterMap f).set j shown') ∧
      (∀ new, f new = none → (calls.set i new).filterMap f = (calls.filterMap f).eraseIdx j) ∧
      (calls.eraseIdx i).filterMap f = (calls.filterMap f).eraseIdx j := by
  induction calls generalizing i with
  | nil => cases h
  | cons first rest ih =>
      cases i with
      | zero =>
          cases h
          refine ⟨0, by simp [hf], fun new shown' hnew => ?_, fun new hnew => ?_, ?_⟩
          · simp [hf, hnew]
          · simp [hf, hnew]
          · simp [hf]
      | succ i =>
          obtain ⟨j, hj, hset, hgone, herase⟩ := ih h
          cases hfirst : f first with
          | none =>
              refine ⟨j, by simpa [hfirst] using hj, fun new shown' hnew => ?_,
                fun new hnew => ?_, ?_⟩
              · simpa [hfirst] using hset new shown' hnew
              · simpa [hfirst] using hgone new hnew
              · simpa [hfirst] using herase
          | some head =>
              refine ⟨j + 1, by simpa [hfirst] using hj, fun new shown' hnew => ?_,
                fun new hnew => ?_, ?_⟩
              · simpa [hfirst] using hset new shown' hnew
              · simpa [hfirst] using hgone new hnew
              · simpa [hfirst] using herase

/-- A call that the view does not show moves and leaves unseen. -/
theorem filterMap_unseen (h : calls[i]? = some call) (hf : f call = none) :
    (∀ new, f new = none → (calls.set i new).filterMap f = calls.filterMap f) ∧
      (calls.eraseIdx i).filterMap f = calls.filterMap f := by
  induction calls generalizing i with
  | nil => cases h
  | cons first rest ih =>
      cases i with
      | zero =>
          cases h
          exact ⟨fun new hnew => by simp [hf, hnew], by simp [hf]⟩
      | succ i =>
          obtain ⟨hset, herase⟩ := ih h
          exact ⟨fun new hnew => by simp [List.filterMap_cons, hset new hnew],
            by simp [List.filterMap_cons, herase]⟩

end Slots

end Library
