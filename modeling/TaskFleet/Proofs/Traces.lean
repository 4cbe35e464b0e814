/-
  TaskFleet.Proofs.Traces — disciplines that remember the whole run.

  The memory of such a discipline is the list of all steps so far, each with the states
  around it, and what a process may count on is said of the single steps of others.
  - `Chain.lost`: what held once and holds no more was lost in one of the steps between.
  - `Since`: what has been so since a step of some kind; `Chain.since`: there is a last such step.
  - `Throughout`, `Sometime`: each step, or some step, is in some relation to the steps before it.
  - `recording`, `traced`: the discipline that asks for nothing, and the discipline made from an
    invariant and from what a step owes to a process.
  - `accounting`: the discipline under which each step is accounted for by the steps before it.
-/

import TaskFleet.Proofs.Interleaving

namespace TaskFleet

/-- Of two cuts of one history, one is before the other, unless they are the same. -/
theorem cut_cases {α : Type} {l₁ l₂ k₁ k₂ : List α} {a b : α} (h : l₁ ++ a :: l₂ = k₁ ++ b :: k₂) :
    (l₁ = k₁ ∧ a = b ∧ l₂ = k₂) ∨ (∃ m, k₁ = l₁ ++ a :: m ∧ l₂ = m ++ b :: k₂) ∨
      ∃ m, l₁ = k₁ ++ b :: m ∧ k₂ = m ++ a :: l₂ := by
  rcases List.append_eq_append_iff.1 h with ⟨m, rfl, hm⟩ | ⟨m, rfl, hm⟩
  · cases m with
    | nil => exact .inl ⟨(List.append_nil _).symm, List.cons.inj hm⟩
    | cons a' m =>
      obtain ⟨rfl, rfl⟩ := List.cons.inj hm
      exact .inr (.inl ⟨m, rfl, rfl⟩)
  · cases m with
    | nil => exact .inl ⟨List.append_nil _, (List.cons.inj hm).1.symm, (List.cons.inj hm).2.symm⟩
    | cons b' m =>
      obtain ⟨rfl, rfl⟩ := List.cons.inj hm
      exact .inr (.inr ⟨m, rfl, rfl⟩)

/-- A step of a process, or of somebody outside. -/
structure Step (σ : Type) where
  process : Option Nat
  before : σ
  after : σ

variable {σ : Type} {s s' s'' : σ} {l l' : List (Step σ)} {e : Step σ}

/-- The steps lead from one state to the other. -/
def Chain : σ → List (Step σ) → σ → Prop
  | s, [], s' => s' = s
  | s, e :: l, s' => e.before = s ∧ Chain e.after l s'

theorem Chain.append (h : Chain s l s') (h' : Chain s' l' s'') : Chain s (l ++ l') s'' := by
  induction l generalizing s with
  | nil =>
    have hs : s' = s := h
    rw [hs] at h'
    exact h'
  | cons e l ih => exact ⟨h.1, ih h.2⟩

theorem Chain.split (h : Chain s (l ++ e :: l') s') : Chain s l e.before ∧ Chain e.after l' s' := by
  induction l generalizing s with
  | nil => exact ⟨h.1, h.2⟩
  | cons a l ih => exact ⟨⟨h.1, (ih h.2).1⟩, (ih h.2).2⟩

/-- What is lost on the way is lost in a first step that takes it. -/
theorem Chain.lost {P : σ → Prop} (h : Chain s l s') (hs : P s) (hs' : ¬P s') :
    ∃ l₁ e l₂, l = l₁ ++ e :: l₂ ∧ P e.before ∧ ¬P e.after ∧ ∀ e' ∈ l₁, P e'.before ∧ P e'.after := by
  induction l generalizing s with
  | nil =>
    have hsame : s' = s := h
    rw [hsame] at hs'
    exact absurd hs hs'
  | cons a l ih =>
    obtain ⟨hbefore, hrest⟩ := h
    have hfirst : P a.before := hbefore ▸ hs
    by_cases ha : P a.after
    · obtain ⟨l₁, e, l₂, rfl, he, hne, hall⟩ := ih hrest ha
      refine ⟨a :: l₁, e, l₂, rfl, he, hne, fun e' he' => ?_⟩
      rcases List.mem_cons.1 he' with rfl | he'
      · exact ⟨hfirst, ha⟩
      · exact hall e' he'
    · refine ⟨[], a, l, rfl, hfirst, ha, fun e' he' => ?_⟩
      cases he'

theorem Chain.preserves {P : σ → Prop} (h : Chain s l s') (hl : ∀ e ∈ l, P e.before → P e.after) (hs : P s) : P s' := by
  refine Classical.byContradiction fun hs' => ?_
  obtain ⟨l₁, e, l₂, rfl, hbefore, hafter, -⟩ := h.lost hs hs'
  exact hafter (hl e (by simp) hbefore)

/-- What no step loses is there before each of them. -/
theorem Chain.before {P : σ → Prop} (h : Chain s l s') (hl : ∀ e ∈ l, P e.before → P e.after) (hs : P s) :
    ∀ e ∈ l, P e.before := by
  intro e he
  obtain ⟨l₁, l₂, rfl⟩ := List.append_of_mem he
  exact h.split.1.preserves (fun e' he' => hl e' (by simp [he'])) hs

/-- Some step was of this kind, and from its end on the states have been like this. -/
def Since (P : Step σ → Prop) (Q : σ → Prop) (l : List (Step σ)) : Prop :=
  ∃ l₁ e l₂, l = l₁ ++ e :: l₂ ∧ P e ∧ Q e.after ∧ ∀ e' ∈ l₂, Q e'.after

section

variable {P : Step σ → Prop} {Q Q' : σ → Prop}

theorem since_now (l : List (Step σ)) (he : P e) (hQ : Q e.after) : Since P Q (l ++ [e]) :=
  ⟨l, e, [], rfl, he, hQ, fun e' he' => by cases he'⟩

theorem Since.snoc (h : Since P Q l) (hQ : Q e.after) : Since P Q (l ++ [e]) := by
  obtain ⟨l₁, e₁, l₂, rfl, he₁, hQ₁, hall⟩ := h
  refine ⟨l₁, e₁, l₂ ++ [e], by simp, he₁, hQ₁, fun e' he' => ?_⟩
  rcases List.mem_append.1 he' with he' | he'
  · exact hall e' he'
  · rw [List.mem_singleton.1 he']
    exact hQ

/-- What was not so and is so in the end has been so since a last step that brought it about. -/
theorem Chain.since {Q : σ → Prop} (h : Chain s l s') (hs : ¬Q s) (hs' : Q s') : Since (fun e => ¬Q e.before) Q l := by
  -- from any state on, either it was so all the way or there was such a step
  have hfrom : ∀ {l : List (Step σ)} {s : σ}, Chain s l s' → (Q s ∧ ∀ e ∈ l, Q e.after) ∨ Since (fun e => ¬Q e.before) Q l := by
    intro l
    induction l with
    | nil =>
      intro s h
      have hsame : s' = s := h
      exact .inl ⟨hsame ▸ hs', fun e he => by cases he⟩
    | cons a l ih =>
      rintro s ⟨rfl, hrest⟩
      rcases ih hrest with ⟨ha, hall⟩ | ⟨l₁, e, l₂, rfl, hlast⟩
      · by_cases hbefore : Q a.before
        · refine .inl ⟨hbefore, fun e he => ?_⟩
          rcases List.mem_cons.1 he with rfl | he
          · exact ha
          · exact hall e he
        · exact .inr ⟨[], a, l, rfl, hbefore, ha, hall⟩
      · exact .inr ⟨a :: l₁, e, l₂, rfl, hlast⟩
  exact (hfrom h).resolve_left fun hall => hs hall.1

end

/-- Every step is in this relation to the steps before it. -/
def Throughout (P : List (Step σ) → Step σ → Prop) (l : List (Step σ)) : Prop :=
  ∀ l₁ e l₂, l = l₁ ++ e :: l₂ → P l₁ e

theorem throughout_nil (P : List (Step σ) → Step σ → Prop) : Throughout P [] := fun _ _ _ h => absurd h (by simp)

theorem Throughout.snoc {P : List (Step σ) → Step σ → Prop} (h : Throughout P l) (he : P l e) : Throughout P (l ++ [e]) := by
  intro l₁ e' l₂ hl
  rcases cut_snoc hl with ⟨rfl, rfl⟩ | ⟨l₂', rfl⟩
  · exact he
  · exact h l₁ e' l₂' rfl

/-- Some step is in this relation to the steps before it. -/
def Sometime (P : List (Step σ) → Step σ → Prop) (l : List (Step σ)) : Prop :=
  ∃ l₁ e l₂, l = l₁ ++ e :: l₂ ∧ P l₁ e

section

variable {P : List (Step σ) → Step σ → Prop}

theorem sometime_now (h : P l e) : Sometime P (l ++ [e]) := ⟨l, e, [], rfl, h⟩

theorem Sometime.append (h : Sometime P l) (l' : List (Step σ)) : Sometime P (l ++ l') := by
  obtain ⟨l₁, e, l₂, rfl, he⟩ := h
  exact ⟨l₁, e, l₂ ++ l', by simp, he⟩

end

namespace Discipline

/-- The discipline of those who only remember. -/
def recording (σ : Type) : Discipline σ (List (Step σ)) where
  observe i s s' h := h ++ [⟨some i, s, s'⟩]
  Inv _ := True
  Rely _ _ _ := True
  idle _ _ _ := ⟨trivial, fun _ => trivial⟩
  rely_refl _ _ := trivial
  rely_trans _ _ _ _ _ _ := trivial

/-- The discipline that remembers every step, from an invariant of the run and what a step
    owes to a process. -/
def traced (Inv : Scene σ (List (Step σ)) → Prop) (Fair : Nat → Step σ → Prop)
    (inv_idle : ∀ i c, Inv c → Inv ⟨c.state, c.memory ++ [⟨some i, c.state, c.state⟩]⟩)
    (fair_idle : ∀ i j s, Fair j ⟨some i, s, s⟩) : Discipline σ (List (Step σ)) where
  observe i s s' h := h ++ [⟨some i, s, s'⟩]
  Inv := Inv
  Rely i c d := ∃ l, d.memory = c.memory ++ l ∧ Chain c.state l d.state ∧ ∀ e ∈ l, Fair i e
  idle i c hi := by
    refine ⟨inv_idle i c hi, fun j => ⟨_, rfl, ⟨rfl, rfl⟩, fun e he => ?_⟩⟩
    rw [List.mem_singleton.1 he]
    exact fair_idle i j c.state
  rely_refl i c := ⟨[], (List.append_nil _).symm, rfl, fun e he => by cases he⟩
  rely_trans i c d e hcd hde := by
    obtain ⟨l, hl, hchain, hfair⟩ := hcd
    obtain ⟨l', hl', hchain', hfair'⟩ := hde
    refine ⟨l ++ l', by rw [hl', hl, List.append_assoc], hchain.append hchain', fun a ha => ?_⟩
    rcases List.mem_append.1 ha with ha | ha
    · exact hfair a ha
    · exact hfair' a ha

/-- The processes of a run go by their places in the crew, so each begins under a number that no
    step has had yet. -/
theorem Run.numbered {ρ : Type} {D : Discipline σ (List (Step σ))}
    {outside : Scene σ (List (Step σ)) → Scene σ (List (Step σ)) → Prop}
    {begins : Scene σ (List (Step σ)) → Nat → Program σ ρ → Scene σ (List (Step σ)) → Prop} {first c : Scene σ (List (Step σ))}
    {crew : List (Program σ ρ)} (hfirst : first.memory = [])
    (hobserve : ∀ i s s' l, D.observe i s s' l = l ++ [⟨some i, s, s'⟩])
    (houtside : ∀ c d, outside c d → d.memory = c.memory ++ [⟨none, c.state, d.state⟩])
    (hbegins : ∀ c i p d, begins c i p d → d.memory = c.memory) (h : D.Run outside begins first c crew) :
    D.Run outside (fun c i p d => begins c i p d ∧ ∀ e ∈ c.memory, e.process ≠ some i) first c crew ∧
      ∀ e ∈ c.memory, ∀ i, e.process = some i → i < crew.length := by
  induction h with
  | start => exact ⟨.start, by rw [hfirst]; nofun⟩
  | outside _ hout ih =>
    refine ⟨ih.1.outside hout, fun e he i hi => ?_⟩
    rw [houtside _ _ hout] at he
    rcases List.mem_append.1 he with he | he
    · exact ih.2 e he i hi
    · rw [List.mem_singleton.1 he] at hi
      cases hi
  | begins _ hbegin ih =>
    refine ⟨ih.1.begins ⟨hbegin, fun e he hi => Nat.lt_irrefl _ (ih.2 e he _ hi)⟩, fun e he i hi => ?_⟩
    rw [hbegins _ _ _ _ hbegin] at he
    rw [List.length_append]
    exact Nat.lt_add_right _ (ih.2 e he i hi)
  | @moves c crew i p p' s' _ hp hmove ih =>
    refine ⟨ih.1.moves hp hmove, fun e he j hj => ?_⟩
    rw [List.length_set]
    rw [hobserve] at he
    rcases List.mem_append.1 he with he | he
    · exact ih.2 e he j hj
    · rw [List.mem_singleton.1 he] at hj
      cases hj
      exact (List.getElem?_eq_some_iff.1 hp).1

/-! ## Steps that are accounted for -/

/-- The run so far leads from the first state to a good one, and each of its steps is accounted
    for. -/
structure Accounted (first : σ) (Good : σ → Prop) (P : List (Step σ) → Step σ → Prop)
    (c : Scene σ (List (Step σ))) : Prop where
  chain : Chain first c.memory c.state
  good : Good c.state
  steps : Throughout P c.memory

section

variable {first : σ} {Good : σ → Prop} {P : List (Step σ) → Step σ → Prop} {Fair : Nat → Step σ → Prop} {i : Nat}
  {c : Scene σ (List (Step σ))} {process : Option Nat}

theorem accounted_first (h : Good first) : Accounted first Good P ⟨first, []⟩ := ⟨rfl, h, throughout_nil P⟩

theorem Accounted.step (h : Accounted first Good P c) (hgood : Good s') (hP : P c.memory ⟨process, c.state, s'⟩) :
    Accounted first Good P ⟨s', c.memory ++ [⟨process, c.state, s'⟩]⟩ :=
  ⟨h.chain.append ⟨rfl, rfl⟩, hgood, h.steps.snoc hP⟩

variable (first Good P Fair) in
/-- The discipline of good states and of steps that are accounted for. -/
def accounting (idle : ∀ i l s, P l ⟨some i, s, s⟩) (fair_idle : ∀ i j s, Fair j ⟨some i, s, s⟩) :
    Discipline σ (List (Step σ)) :=
  traced (Accounted first Good P) Fair (fun i c hi => hi.step hi.good (idle i c.memory c.state)) fair_idle

variable {idle : ∀ i l s, P l ⟨some i, s, s⟩} {fair_idle : ∀ i j s, Fair j ⟨some i, s, s⟩}

theorem rely_accounting (h : Fair i ⟨process, c.state, s'⟩) :
    (accounting first Good P Fair idle fair_idle).Rely i c ⟨s', c.memory ++ [⟨process, c.state, s'⟩]⟩ := by
  refine ⟨_, rfl, ⟨rfl, rfl⟩, fun e he => ?_⟩
  rw [List.mem_singleton.1 he]
  exact h

theorem keeps_accounting (hi : Accounted first Good P c) (hgood : Good s') (hP : P c.memory ⟨some i, c.state, s'⟩)
    (hfair : ∀ j, j ≠ i → Fair j ⟨some i, c.state, s'⟩) :
    (accounting first Good P Fair idle fair_idle).Keeps i c ⟨s', c.memory ++ [⟨some i, c.state, s'⟩]⟩ :=
  ⟨hi.step hgood hP, fun j hj => rely_accounting (hfair j hj)⟩

end

end Discipline

end TaskFleet
