import Mathlib.Data.List.Basic

namespace Wddlib

universe u

variable {α : Type u} {lossy lossy' : Prop} {out out' inn more : List α} {x : α}

/-- `out` is what has come of `inn`: in order, no entry more than once, and all of it unless `lossy`. -/
structure Carried (lossy : Prop) (out inn : List α) : Prop where
  sublist : out.Sublist inn
  whole : ¬ lossy → out = inn

/-- `out` is what has come of `inn` so far: in order, no entry more than once, and without a gap unless `lossy`. -/
structure Kept (lossy : Prop) (out inn : List α) : Prop where
  sublist : out.Sublist inn
  start : ¬ lossy → out <+: inn

theorem Carried.refl (lossy : Prop) (inn : List α) : Carried lossy inn inn := ⟨.refl inn, fun _ => rfl⟩

theorem Carried.nil (lossy : Prop) : Carried lossy ([] : List α) [] := ⟨.refl [], fun _ => rfl⟩

theorem Carried.mono (h : Carried lossy out inn) (weaker : lossy → lossy') : Carried lossy' out inn :=
  ⟨h.sublist, fun fine => h.whole fun loss => fine (weaker loss)⟩

theorem Carried.trans (h : Carried lossy out more) (h' : Carried lossy more inn) : Carried lossy out inn :=
  ⟨h.sublist.trans h'.sublist, fun fine => (h.whole fine).trans (h'.whole fine)⟩

theorem Carried.append_left (more : List α) (h : Carried lossy out inn) : Carried lossy (more ++ out) (more ++ inn) :=
  ⟨h.sublist.append_left more, fun fine => by rw [h.whole fine]⟩

theorem Carried.eq_nil (h : Carried lossy out []) : out = [] := List.sublist_nil.mp h.sublist

theorem Carried.append (h : Carried lossy out inn) (more : List α) : Carried lossy (out ++ more) (inn ++ more) :=
  ⟨h.sublist.append (.refl more), fun fine => by rw [h.whole fine]⟩

theorem Carried.lose (loss : lossy) (h : Carried lossy out inn) (sub : out'.Sublist out) : Carried lossy out' inn :=
  ⟨sub.trans h.sublist, fun fine => absurd loss fine⟩

/-- A part that is still under way has not come yet. -/
theorem Carried.kept (h : Carried lossy (out ++ more) inn) : Kept lossy out inn :=
  ⟨(List.sublist_append_left out more).trans h.sublist, fun fine => ⟨more, h.whole fine⟩⟩

theorem Kept.nil (lossy : Prop) (inn : List α) : Kept lossy [] inn := ⟨List.nil_sublist inn, fun _ => List.nil_prefix⟩

theorem Kept.mono (h : Kept lossy out inn) (weaker : lossy → lossy') : Kept lossy' out inn :=
  ⟨h.sublist, fun fine => h.start fun loss => fine (weaker loss)⟩

theorem Kept.grow (h : Kept lossy out inn) (more : List α) : Kept lossy out (inn ++ more) :=
  ⟨h.sublist.trans (List.sublist_append_left inn more), fun fine => (h.start fine).trans (List.prefix_append inn more)⟩

/-- Pieces that have come without a gap are the beginning of the whole. -/
theorem Kept.prefix_flatten {out inn : List (List α)} (h : Kept lossy out inn) (fine : ¬ lossy) :
    out.flatten <+: inn.flatten := by
  obtain ⟨rest, rfl⟩ := h.start fine
  rw [List.flatten_append]
  exact List.prefix_append _ _

end Wddlib
