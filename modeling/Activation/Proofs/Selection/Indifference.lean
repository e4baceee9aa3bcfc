-- SUMMARY: The order and the repeats of candidates, and who excludes a module, never matter.
import Activation.Proofs.Selection.Questions
import Activation.Rehearsal
import Mathlib

/-!
# Indifference to the listing

Two selections with the same collaborators go alike when the same candidates are listed, in
whatever order and however often, and the same names are excluded, by whomever. They end
alike, to the failure and what it names, and they ask their collaborators the same questions.

Collaborators may keep state, and both selections have to begin with the same. It is compared
by a relation that the inspector, the filters and the listeners respect. For collaborators
that do not read the log, which does show how many candidates were listed, equality is such a
relation.
-/

namespace Activation

namespace Selector

variable {σ : Type} {W : σ → σ → Prop} {s s' : Selector σ} {request request' : Request}
  {l l' : Ledger σ}

/-- Selections that differ only in how candidates are listed and exclusions are asked for have the
    same outcome, leave the same state and ask the same. -/
theorem indifferent_of_select (twin : s.Twin s') (respects : s.Respects W)
    (exclusions : s'.exclusions request' = s.exclusions request) (before : W l.world l'.world)
    (listing : Run.EndAlike W SameMembers (s.candidates.exec l) (s'.candidates.exec l')) :
    ((s.select request).exec l).1 = ((s'.select request').exec l').1 ∧
      W ((s.select request).exec l).2.world ((s'.select request').exec l').2.world ∧
      ∀ h, s.historyAfter request l h = s'.historyAfter request' l' h := by
  have ends := endAlike_select twin respects exclusions before listing
  refine ⟨ends.agree.eq, ends.world, fun h => ?_⟩
  -- The watched selectors are twins as well, and their states hold the histories.
  have before' : Alongside W (l.beside h).world (l'.beside h).world := ⟨before, rfl⟩
  have listing' : Run.EndAlike (Alongside W) SameMembers
      (s.watched.candidates.exec (l.beside h)) (s'.watched.candidates.exec (l'.beside h)) :=
    listing.alongside h
  exact (endAlike_select twin.watched respects.watched exclusions before' listing').world.2

end Selector

/-! ## A stateful case -/

/-- A scripted inspector answers by its own calls, so it respects that they are equal. -/
theorem Inspector.respects_scripted (script : Inspector.Script) (id : ModuleId) :
    Run.Respects Eq (Inspector.scripted script id) := by
  intro l l' world
  have hexec : ∀ l, (Inspector.scripted script id).exec l =
      (script.answer id (l.world.count id), { l with world := l.world ++ [id] }) := fun _ => rfl
  rw [hexec, hexec, world]
  exact ⟨.of_eq rfl, rfl⟩

namespace Selector

/-- The second inspection of a module closes a cycle. It is reported alike whatever the order of
    the listing. -/
theorem indifferent_of_select_of_scripted :
    let script : Inspector.Script :=
      .ofList [("a", [.ok {}, .ok { after := NameSet.ofList ["b"] }]),
        ("b", [.ok { after := NameSet.ofList ["a"] }])]
    let s : Selector (List ModuleId) :=
      { candidates := return ["b", "x", "a", "b"]
        inspector := .scripted script
        filters := [.rejecting (NameSet.ofList ["a"])]
        listeners := [.silent]
        settings := { exclude := ["y"] } }
    let s' : Selector (List ModuleId) :=
      { s with candidates := return ["a", "a", "b", "x"], settings := {} }
    let request : Request := { modules := ["x"] }
    let request' : Request := { modules := ["y", "y"], names := ["x"] }
    let l : Ledger (List ModuleId) := ⟨["a"], []⟩
    s.Twin s' ∧ s.Respects Eq ∧ s'.exclusions request' = s.exclusions request ∧
      Run.EndAlike Eq SameMembers (s.candidates.exec l) (s'.candidates.exec l) ∧
      ((s.select request).exec l).1 = .error (.cycleDetected "b" "a") ∧
      ((s'.select request').exec l).1 = .error (.cycleDetected "b" "a") ∧
      ∀ h, s.historyAfter request l h = s'.historyAfter request' l h := by
  intro script s s' request request' l
  have twin : s.Twin s' := ⟨rfl, rfl, rfl, rfl, rfl, rfl⟩
  have respects : s.Respects Eq :=
    { inspector := fun id => Inspector.respects_scripted script id
      filters := List.forall_mem_singleton.2 fun ids => .pure rfl
      listeners := List.forall_mem_singleton.2 fun notice => .pure rfl }
  have exclusions : s'.exclusions request' = s.exclusions request := by
    simp only [s, s', request, request']
    cbv
  have listing : Run.EndAlike Eq SameMembers (s.candidates.exec l) (s'.candidates.exec l) := by
    refine ⟨.ok fun a => ?_, rfl⟩
    simp only [List.mem_cons, List.not_mem_nil, or_false]
    tauto
  have outcome : ((s.select request).exec l).1 = .error (.cycleDetected "b" "a") := by
    simp only [s, request, l]
    cbv
  obtain ⟨same, -, histories⟩ := indifferent_of_select twin respects exclusions rfl listing
  exact ⟨twin, respects, exclusions, listing, outcome, same ▸ outcome, histories⟩

end Selector

end Activation
