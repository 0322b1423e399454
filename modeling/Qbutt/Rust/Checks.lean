import Qbutt.Algorithm.Except

/-!
# Checks

Checks that end with an error text: one after the other, and of the elements of a list whose keys have to
be different.
-/

namespace Qbutt.Rust

def ensure (condition : Bool) (error : String) : Except String Unit :=
  if condition then .ok () else .error error

/-- A loop that checks elements and that their keys are not among those seen so far. -/
def validateDistinct {α κ : Type} [DecidableEq κ] (check : α → Except String Unit) (key : α → κ)
    (error : String) : List κ → List α → Except String Unit
  | _, [] => .ok ()
  | seen, a :: as => do
    check a
    ensure (!seen.contains (key a)) error
    validateDistinct check key error (key a :: seen) as

theorem ensure_eq_ok {condition : Bool} {error : String} :
    ensure condition error = .ok () ↔ condition = true := by
  unfold ensure
  split_ifs with h
  · exact ⟨fun _ => h, fun _ => rfl⟩
  · exact ⟨nofun, fun h' => absurd h' h⟩

theorem validateDistinct_eq_ok {α κ : Type} [DecidableEq κ] {check : α → Except String Unit}
    {key : α → κ} {error : String} {seen : List κ} {as : List α} :
    validateDistinct check key error seen as = .ok () ↔
      (∀ a ∈ as, check a = .ok ()) ∧ (as.map key).Nodup ∧ ∀ a ∈ as, key a ∉ seen := by
  induction as generalizing seen with
  | nil => simp [validateDistinct]
  | cons a as ih =>
    have hloop : validateDistinct check key error seen (a :: as) = .ok () ↔
        check a = .ok () ∧ key a ∉ seen ∧
          validateDistinct check key error (key a :: seen) as = .ok () := by
      rw [validateDistinct, bind_eq_ok]
      constructor
      · rintro ⟨⟨⟩, ha, h⟩
        obtain ⟨⟨⟩, hseen, has⟩ := bind_eq_ok.mp h
        exact ⟨ha, by simpa using ensure_eq_ok.mp hseen, has⟩
      · rintro ⟨ha, hseen, has⟩
        refine ⟨(), ha, bind_eq_ok.mpr ⟨(), ensure_eq_ok.mpr (by simpa using hseen), has⟩⟩
    rw [hloop, ih, List.forall_mem_cons, List.map_cons, List.nodup_cons, List.forall_mem_cons]
    constructor
    · rintro ⟨ha, hseen, hall, hnodup, hnew⟩
      refine ⟨⟨ha, hall⟩, ⟨fun hmem => ?_, hnodup⟩, hseen, fun b hb hmem => ?_⟩
      · obtain ⟨b, hb, heq⟩ := List.mem_map.mp hmem
        exact hnew b hb (heq ▸ List.mem_cons_self)
      · exact hnew b hb (List.mem_cons_of_mem _ hmem)
    · rintro ⟨⟨ha, hall⟩, ⟨hnot, hnodup⟩, hseen, hnew⟩
      refine ⟨ha, hseen, hall, hnodup, fun b hb hmem => ?_⟩
      rcases List.mem_cons.mp hmem with heq | hmem
      · exact hnot (heq ▸ List.mem_map_of_mem hb)
      · exact hnew b hb hmem

end Qbutt.Rust
