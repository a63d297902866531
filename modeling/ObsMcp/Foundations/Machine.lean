import Mathlib.Data.List.Basic
import Mathlib.Tactic.Ring

/-!
# Labelled transition systems

A `Machine` is a set of initial states and a labelled step relation. `Reachable` is the least set
of states closed under the steps, `invariant_of_step` the induction over it, and `Run` a finite
sequence of steps together with the states it visits, so that a statement about the order of
events along a run can be made on the list of visited states.

Two ways of limiting a run are used later. `restrict` keeps the steps that meet a condition on the
state before the step and on the label; its reachable states are reachable in the full machine
(`Reachable.of_restrict`). `entries` counts the steps of a run that enter a set of states, and
`entries_le_rank` bounds the count by a rank that never grows and drops at every entry; with a
readiness for a rank it is at most one (`entries_le_one`).
-/

namespace ObsMcp.Foundations

/-- A labelled transition system: initial states and a labelled step relation. -/
structure Machine (σ ε : Type*) where
  initial : σ → Prop
  step : σ → ε → σ → Prop

namespace Machine

variable {σ ε : Type*} {m : Machine σ ε}

/-- The states a machine can be in. -/
inductive Reachable (m : Machine σ ε) : σ → Prop
  | initial {s : σ} : m.initial s → Reachable m s
  | step {s t : σ} {e : ε} : Reachable m s → m.step s e t → Reachable m t

/-- The invariant rule. Assumes: the invariant holds initially and every step from a reachable
state keeps it. -/
theorem invariant_of_step (Inv : σ → Prop) (hinitial : ∀ s, m.initial s → Inv s)
    (hstep : ∀ s e t, m.Reachable s → Inv s → m.step s e t → Inv t) {s : σ}
    (hs : m.Reachable s) : Inv s := by
  induction hs with
  | initial h => exact hinitial _ h
  | step hr h ih => exact hstep _ _ _ hr ih h

/-- A finite run from a state: each label with the state its step leads to. -/
inductive Run (m : Machine σ ε) : σ → List (ε × σ) → Prop
  | nil (s : σ) : Run m s []
  | cons {s t : σ} {e : ε} {rest : List (ε × σ)} :
      m.step s e t → Run m t rest → Run m s ((e, t) :: rest)

/-- The state a run ends in. -/
def last (s : σ) : List (ε × σ) → σ
  | [] => s
  | (_, t) :: rest => last t rest

@[simp] theorem last_cons (s t : σ) (e : ε) (rest : List (ε × σ)) :
    last s ((e, t) :: rest) = last t rest := rfl

/-- A run after a run ends where the second one ends. -/
theorem last_append (s : σ) (before after : List (ε × σ)) :
    last s (before ++ after) = last (last s before) after := by
  induction before generalizing s with
  | nil => rfl
  | cons entry rest ih => exact ih entry.2

/-- A property that every step keeps holds at the end of a run when it holds at its start. -/
theorem Run.keeps (Inv : σ → Prop) (hstep : ∀ s e t, Inv s → m.step s e t → Inv t) {s : σ}
    {run : List (ε × σ)} (hrun : m.Run s run) (hs : Inv s) : Inv (last s run) := by
  induction hrun with
  | nil s => exact hs
  | cons h _ ih => exact ih (hstep _ _ _ hs h)

/-- A run from a reachable state visits reachable states. -/
theorem Run.reachable {s : σ} {run : List (ε × σ)} (hrun : m.Run s run) (hs : m.Reachable s) :
    m.Reachable (last s run) :=
  Run.keeps m.Reachable (fun _ _ _ hr h ↦ hr.step h) hrun hs

/-- An entry of a run is a step between two runs. -/
theorem Run.split {s t : σ} {e : ε} {before after run : List (ε × σ)} (hrun : m.Run s run)
    (hsplit : run = before ++ (e, t) :: after) :
    m.Run s before ∧ m.step (last s before) e t ∧ m.Run t after := by
  subst hsplit
  induction before generalizing s with
  | nil =>
    obtain ⟨⟩ | ⟨hstep, hrest⟩ := hrun
    exact ⟨.nil s, hstep, hrest⟩
  | cons entry before ih =>
    obtain ⟨⟩ | ⟨hstep, hrest⟩ := hrun
    obtain ⟨hbefore, hat, hafter⟩ := ih hrest
    exact ⟨.cons hstep hbefore, hat, hafter⟩

/-- A run that starts inside a set of states and ends outside takes a step that leaves it. -/
theorem Run.exists_exit {inside : σ → Prop} {s : σ} {run : List (ε × σ)} (hrun : m.Run s run)
    (hs : inside s) (hlast : ¬ inside (last s run)) :
    ∃ before e t after, run = before ++ (e, t) :: after ∧ inside (last s before) ∧
      m.step (last s before) e t ∧ ¬ inside t := by
  induction hrun with
  | nil s => exact absurd hs hlast
  | @cons s t e rest h _ ih =>
    by_cases ht : inside t
    · obtain ⟨before, e', t', after, hsplit, hinside, hstep, hout⟩ := ih ht hlast
      exact ⟨(e, t) :: before, e', t', after, by simp [hsplit], hinside, hstep, hout⟩
    · exact ⟨[], e, t, rest, rfl, hs, h, ht⟩

/-- Along a run that ends with the rank it starts with, the view of the state stays what it is.
Assumes: a step either keeps view and rank or raises the rank. -/
theorem Run.view_eq_of_rank {β : Type*} (view : σ → β) (rank : σ → ℕ)
    (hstep : ∀ s e t, m.Reachable s → m.step s e t →
      (view t = view s ∧ rank t = rank s) ∨ rank s < rank t)
    {s : σ} {run : List (ε × σ)} (hs : m.Reachable s) (hrun : m.Run s run)
    (hlast : rank (last s run) ≤ rank s) : ∀ entry ∈ run, view entry.2 = view s := by
  have hmono : ∀ {s : σ} {run : List (ε × σ)}, m.Run s run → m.Reachable s →
      rank s ≤ rank (last s run) := by
    intro s run hrun
    induction hrun with
    | nil s => exact fun _ ↦ Nat.le_refl _
    | cons h _ ih =>
      intro hs
      have := ih (hs.step h)
      rcases hstep _ _ _ hs h with ⟨-, hrank⟩ | hrank <;> simp only [last_cons] <;> omega
  induction hrun with
  | nil s => simp
  | @cons s t e rest h hrest ih =>
    have hle := hmono hrest (hs.step h)
    rw [last_cons] at hlast
    rcases hstep _ _ _ hs h with ⟨hview, hrank⟩ | hrank
    · intro entry hentry
      rcases List.mem_cons.mp hentry with rfl | hentry
      · exact hview
      · rw [← hview]
        exact ih (hs.step h) (by omega) entry hentry
    · omega

/-- A list of labels that a step function takes from a reachable state leads to a reachable state.
Assumes: the steps of the function are steps of the machine. -/
theorem Reachable.of_foldlM {act : σ → ε → Option σ}
    (hact : ∀ s e t, act s e = some t → m.step s e t) {labels : List ε} {s t : σ}
    (hs : m.Reachable s) (hlabels : labels.foldlM act s = some t) : m.Reachable t := by
  induction labels generalizing s with
  | nil =>
    obtain rfl : s = t := by simpa using hlabels
    exact hs
  | cons e labels ih =>
    rw [List.foldlM_cons] at hlabels
    obtain ⟨next, hnext, hrest⟩ := Option.bind_eq_some_iff.mp hlabels
    exact ih (hs.step (hact _ _ _ hnext)) hrest

/-- The machine with only the steps that meet a condition on the state before and the label. -/
def restrict (m : Machine σ ε) (allowed : σ → ε → Prop) : Machine σ ε where
  initial := m.initial
  step s e t := allowed s e ∧ m.step s e t

theorem Reachable.of_restrict {allowed : σ → ε → Prop} {s : σ}
    (hs : (m.restrict allowed).Reachable s) : m.Reachable s := by
  induction hs with
  | initial h => exact .initial h
  | step _ h ih => exact ih.step h.2

theorem Run.of_restrict {allowed : σ → ε → Prop} {s : σ} {run : List (ε × σ)}
    (hrun : (m.restrict allowed).Run s run) : m.Run s run := by
  induction hrun with
  | nil s => exact .nil s
  | cons h _ ih => exact .cons h.2 ih

section Entries

variable (inside : σ → Prop) [DecidablePred inside]

/-- The number of steps of a run that enter `inside` from outside. -/
def entries : σ → List (ε × σ) → ℕ
  | _, [] => 0
  | s, (_, t) :: rest => (if ¬ inside s ∧ inside t then 1 else 0) + entries t rest

/-- The entries along a run are bounded by a rank of the start. Assumes: a rank that never grows
and drops at every entry. -/
theorem entries_le_rank (rank : σ → ℕ) (hrank : ∀ s e t, m.step s e t → rank t ≤ rank s)
    (hentry : ∀ s e t, m.step s e t → ¬ inside s → inside t → rank t < rank s)
    {s : σ} {run : List (ε × σ)} (hrun : m.Run s run) : entries inside s run ≤ rank s := by
  induction hrun with
  | nil s => exact Nat.zero_le _
  | @cons s t e rest h _ ih =>
    unfold entries
    split_ifs with henter
    · have := hentry _ _ _ h henter.1 henter.2
      omega
    · have := hrank _ _ _ h
      omega

/-- A run enters at most once. Assumes: a step that enters uses up a readiness that no step gives
back. -/
theorem entries_le_one (ready : σ → Prop) (hready : ∀ s e t, m.step s e t → ready t → ready s)
    (hentry : ∀ s e t, m.step s e t → ¬ inside s → inside t → ready s ∧ ¬ ready t)
    {s : σ} {run : List (ε × σ)} (hrun : m.Run s run) : entries inside s run ≤ 1 := by
  classical
  refine Nat.le_trans (entries_le_rank inside (fun s ↦ if ready s then 1 else 0)
    (fun s e t hstep ↦ ?_) (fun s e t hstep hbefore hafter ↦ ?_) hrun) (by split_ifs <;> simp)
  · by_cases ht : ready t
    · simp [ht, hready s e t hstep ht]
    · simp [ht]
  · obtain ⟨hs, ht⟩ := hentry s e t hstep hbefore hafter
    simp [hs, ht]

end Entries

end Machine

end ObsMcp.Foundations
