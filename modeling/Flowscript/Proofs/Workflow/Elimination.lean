import Flowscript.Workflow.Elimination
import Flowscript.Proofs.Runs

/-!
# What the passes leave of a statement

Most passes drop a statement or leave it alone; one replaces a call by the literal that it holds.
-/

namespace Flowscript.Workflow

open List

variable {subject : Subject} {line text : String}

def Drops (pass : Pass) : Prop :=
  ∀ {subject : Subject} {text line : String}, pass subject text = .ok line → line = "" ∨ line = text

theorem drops_dropReroute : Drops dropReroute := by
  intro subject text line h
  unfold dropReroute at h
  split at h
  · exact .inr (Except.ok.inj h).symm
  · split at h
    · exact .inl (Except.ok.inj h).symm
    · cases h

theorem drops_dropMove : Drops dropMove := by
  intro subject text line h
  have hline := (Except.ok.inj h).symm
  split at hline
  · exact .inl hline
  · exact .inr hline

theorem drops_dropSwitchedOff : Drops dropSwitchedOff := by
  intro subject text line h
  unfold dropSwitchedOff at h
  split at h
  · cases h
  · split at h
    · exact .inr (Except.ok.inj h).symm
    · obtain ⟨off, -, h⟩ := ok_of_bind h
      have hline := (Except.ok.inj h).symm
      split at hline
      · exact .inl hline
      · exact .inr hline

theorem drops_dropMultiplexer : Drops dropMultiplexer := by
  intro subject text line h
  unfold dropMultiplexer at h
  split at h
  · exact .inr (Except.ok.inj h).symm
  · obtain ⟨multiplexer, -, h⟩ := ok_of_bind h
    split at h
    · cases h
    · split at h
      · exact .inl (Except.ok.inj h).symm
      · cases h

theorem inlineLiteral_cases (h : inlineLiteral subject text = .ok line) :
    line = text ∨ (subject.type == .str "PrimitiveNode") = true ∧ literalOf? text = some line := by
  unfold inlineLiteral at h
  split at h
  · exact .inl (Except.ok.inj h).symm
  next htype =>
    split at h
    next shorter hshorter => exact .inr ⟨by simpa using htype, Except.ok.inj h ▸ hshorter⟩
    · cases h

theorem of_runPasses_cons {pass : Pass} {rest : List Pass}
    (h : runPasses subject (pass :: rest) text = .ok line) :
    line = "" ∨ ∃ text', pass subject text = .ok text' ∧ text' ≠ "" ∧
      runPasses subject rest text' = .ok line := by
  unfold runPasses at h
  obtain ⟨text', hpass, h⟩ := ok_of_bind h
  split at h
  · exact .inl (Except.ok.inj h).symm
  next hempty => exact .inr ⟨text', hpass, fun htext => hempty (by simp [htext]), h⟩

theorem runPasses_cases {passes : List Pass} (hp : ∀ pass ∈ passes, Drops pass)
    (h : runPasses subject passes text = .ok line) :
    line = "" ∨ line = text := by
  induction passes generalizing text with
  | nil => exact .inr (Except.ok.inj h).symm
  | cons pass rest ih =>
    rcases of_runPasses_cons h with hline | ⟨text', hpass, hne, hrest⟩
    · exact .inl hline
    · obtain rfl := (hp pass mem_cons_self hpass).resolve_left hne
      exact ih (fun p hmem => hp p (mem_cons_of_mem _ hmem)) hrest

theorem eliminate_cases (h : eliminate subject text = .ok line) : line = "" ∨ line = text ∨
      (subject.type == .str "PrimitiveNode") = true ∧ literalOf? text = some line := by
  rcases of_runPasses_cons h with hline | ⟨text₁, hreroute, hne₁, h₁⟩
  · exact .inl hline
  obtain rfl := (drops_dropReroute hreroute).resolve_left hne₁
  rcases of_runPasses_cons h₁ with hline | ⟨text₂, hmove, hne₂, h₂⟩
  · exact .inl hline
  obtain rfl := (drops_dropMove hmove).resolve_left hne₂
  rcases of_runPasses_cons h₂ with hline | ⟨text₃, hliteral, -, h₃⟩
  · exact .inl hline
  have hlast : line = "" ∨ line = text₃ := by
    refine runPasses_cases (fun pass hmem => ?_) h₃
    simp only [mem_cons, not_mem_nil, or_false] at hmem
    rcases hmem with rfl | rfl
    · exact drops_dropSwitchedOff
    · exact drops_dropMultiplexer
  rcases hlast with rfl | rfl
  · exact .inl rfl
  · exact .inr (inlineLiteral_cases hliteral)

end Flowscript.Workflow
