import Mathlib.Algebra.Order.Group.Defs
import Mathlib.Algebra.Order.Ring.Int
import Mathlib.Algebra.Order.Monoid.Unbundled.Basic

-- Events at given times, and how many of them fall into a window that slides over the time.
namespace Window

variable {α : Type*} [AddCommGroup α] [LinearOrder α] {times : List α} {w t t' : α} {limit : Int}

-- The events after `t - w`.
def recent (times : List α) (w t : α) : List α :=
  times.filter (t - w < ·)

def within (times : List α) (w t : α) : Nat :=
  (recent times w t).countP (· ≤ t)

def Bounded (times : List α) (w : α) (limit : Int) : Prop :=
  ∀ t, within times w t ≤ limit

theorem Bounded.nil (h : 0 ≤ limit) : Bounded ([] : List α) w limit :=
  fun _ => h

theorem within_le : within times w t ≤ (recent times w t).length :=
  List.countP_le_length

variable [IsOrderedAddMonoid α]

theorem recent_length_anti (h : t ≤ t') : (recent times w t').length ≤ (recent times w t).length := by
  have hs : recent times w t' = (recent times w t).filter (t' - w < ·) := by
    simp only [recent, List.filter_filter]
    refine List.filter_congr fun u _ => ?_
    have hu : t' - w < u → t - w < u := lt_of_le_of_lt (sub_le_sub_right h w)
    simp +contextual [hu]
  rw [hs]
  exact List.length_filter_le ..

-- An event may be added if the window that ends with it has room for it.
theorem Bounded.snoc (h : Bounded times w limit) (hl : (recent times w t).length < limit) :
    Bounded (times ++ [t]) w limit := by
  intro t'
  have hs : within (times ++ [t]) w t' = within times w t' + within [t] w t' := by
    simp [within, recent]
  rw [hs]
  by_cases ht : t ≤ t'
  case neg =>
    have hz : within [t] w t' = 0 := by
      refine List.countP_eq_zero.mpr fun u hu => ?_
      have he : u = t := List.mem_singleton.mp (List.mem_filter.mp hu).left
      simpa [he] using ht
    simpa [hz] using h t'
  case pos =>
    have ho : within [t] w t' ≤ 1 := within_le.trans (List.length_filter_le ..)
    have hr : within times w t' ≤ (recent times w t).length := within_le.trans (recent_length_anti ht)
    omega

end Window
