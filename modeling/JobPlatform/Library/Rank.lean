import JobPlatform.Library.SortedSet
import Mathlib.Data.String.Basic

namespace SortedSet

variable {α β : Type*} [LinearOrder α] [LinearOrder β] {z z' : SortedSet α β} {m i : α} {s max : β} {limit : Int}

instance : Std.Total (before (α := α) (β := β)) where
  total x y := by
    obtain hl | he | hl := lt_trichotomy x.2 y.2
    · exact .inl (.inl hl)
    · exact (le_total x.1 y.1).imp (fun hm => .inr ⟨he, hm⟩) (fun hm => .inr ⟨he.symm, hm⟩)
    · exact .inr (.inl hl)

instance : IsTrans _ (before (α := α) (β := β)) where
  trans x y w hxy hyw := by
    obtain hxy | ⟨he, hxy⟩ := hxy
    · exact .inl <| hyw.elim hxy.trans fun h => hxy.trans_eq h.left
    · exact hyw.imp he.trans_lt fun ⟨he', hyw⟩ => ⟨he.trans he', hxy.trans hyw⟩

-- The member `i` comes before `m`, which has the score `s`.
def Ahead (z : SortedSet α β) (m : α) (s : β) (i : α) : Prop :=
  i ≠ m ∧ ∃ s', z.score? i = some s' ∧ before ⟨i, s'⟩ ⟨m, s⟩

def ahead (z : SortedSet α β) (m : α) (s : β) : List α :=
  (z.entries.filter fun x => x.1 ≠ m ∧ before x ⟨m, s⟩).map (·.1)

variable (hm : z.score? m = some s) (hs : s ≤ max) (hn : m ∉ z.rangeByScore max limit)
include hm hs hn

end SortedSet
