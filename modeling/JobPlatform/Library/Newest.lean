import Mathlib.Data.List.Nodup
import Mathlib.Data.List.Sort

-- The newest of the distinct elements of a list.
namespace Newest

variable {α β γ : Type*} [LinearOrder β] [DecidableEq γ]

-- Elements with the same identity count as one, and only the first of them is taken.
def firsts (id : α → γ) : List γ → List α → List α
  | _, []         => []
  | seen, a :: as => if id a ∈ seen then firsts id seen as else a :: firsts id (id a :: seen) as

-- Newer elements come first. Elements of the same age stay as they are.
def sort (key : α → β) (l : List α) : List α :=
  l.insertionSort fun a b => key b ≤ key a

def newest (key : α → β) (n : Nat) (l : List α) : List α :=
  (sort key l).take n

variable {key : α → β} {id : α → γ} {l l' as bs : List α} {seen seen' : List γ} {a x : α} {n : Nat}

theorem firsts_congr (h : ∀ c, c ∈ seen ↔ c ∈ seen') : firsts id seen as = firsts id seen' as := by
  induction as generalizing seen seen'
  case nil          => rfl
  case cons a as hi =>
    have ha : firsts id (id a :: seen) as = firsts id (id a :: seen') as := hi <| by simp [h]
    simp only [firsts, h, ha, hi h]

theorem firsts_append :
    firsts id seen (as ++ bs) = firsts id seen as ++ firsts id (seen ++ as.map id) bs := by
  induction as generalizing seen
  case nil          => simp [firsts]
  case cons a as hi =>
    rw [List.cons_append, firsts, firsts]
    split
    case isTrue ha =>
      rw [hi]
      refine congrArg _ <| firsts_congr fun c => ?_
      simp only [List.mem_append, List.map_cons, List.mem_cons]
      exact ⟨.imp_right .inr, fun h => h.elim .inl fun h => h.elim (fun he => .inl (he ▸ ha)) .inr⟩
    case isFalse   =>
      rw [hi, List.cons_append]
      refine congrArg _ <| congrArg _ <| firsts_congr fun c => ?_
      simp only [List.mem_append, List.map_cons, List.mem_cons]
      exact or_left_comm

theorem firsts_sublist : (firsts id seen as).Sublist as := by
  induction as generalizing seen
  case nil          => exact .slnil
  case cons a as hi =>
    unfold firsts
    split
    case isTrue  => exact hi.cons a
    case isFalse => exact hi.cons_cons a

-- What is taken has not been seen before.
theorem not_mem_of_mem_firsts (h : a ∈ firsts id seen as) : id a ∉ seen := by
  induction as generalizing seen
  case nil          => cases h
  case cons b as hi =>
    unfold firsts at h
    split at h
    case isTrue     => exact hi h
    case isFalse hb =>
      obtain rfl | h := List.mem_cons.mp h
      · exact hb
      · exact fun hs => hi h (List.mem_cons_of_mem _ hs)

theorem firsts_pairwise : (firsts id seen as).Pairwise fun a b => id a ≠ id b := by
  induction as generalizing seen
  case nil          => exact .nil
  case cons a as hi =>
    unfold firsts
    split
    case isTrue  => exact hi
    case isFalse => exact .cons (fun b hb he => not_mem_of_mem_firsts hb (he ▸ List.mem_cons_self)) hi

theorem pairwise_append_firsts (h : l.Pairwise fun a b => id a ≠ id b) (hs : ∀ a ∈ l, id a ∈ seen) :
    (l ++ firsts id seen as).Pairwise fun a b => id a ≠ id b :=
  List.pairwise_append.mpr
    ⟨h, firsts_pairwise, fun a ha _ hb he => not_mem_of_mem_firsts hb (he ▸ hs a ha)⟩

theorem firsts_eq_self (h : as.Pairwise fun a b => id a ≠ id b) (hs : ∀ a ∈ as, id a ∉ seen) :
    firsts id seen as = as := by
  induction as generalizing seen
  case nil          => rfl
  case cons a as hi =>
    have ⟨ha, h⟩ := List.pairwise_cons.mp h
    have hn : ∀ b ∈ as, id b ∉ id a :: seen := by
      intro b hb hc
      obtain he | hc := List.mem_cons.mp hc
      · exact ha b hb he.symm
      · exact hs b (List.mem_cons_of_mem a hb) hc
    rw [firsts, if_neg (hs a List.mem_cons_self), hi h hn]

theorem firsts_eq_nil (h : ∀ a ∈ as, id a ∈ seen) : firsts id seen as = [] := by
  induction as
  case nil          => rfl
  case cons a as hi =>
    rw [firsts, if_pos (h a List.mem_cons_self)]
    exact hi fun b hb => h b (List.mem_cons_of_mem a hb)

theorem mem_map_firsts {c : γ} : c ∈ (firsts id seen as).map id ∨ c ∈ seen ↔ c ∈ as.map id ∨ c ∈ seen := by
  induction as generalizing seen
  case nil          => rfl
  case cons a as hi =>
    unfold firsts
    split
    case isTrue ha =>
      rw [hi, List.map_cons, List.mem_cons, or_assoc, or_iff_right_of_imp (a := c = id a)]
      rintro rfl
      exact .inr ha
    case isFalse   =>
      have hc : c ∈ (firsts id (id a :: seen) as).map id ∨ c ∈ id a :: seen ↔ c ∈ as.map id ∨ c ∈ id a :: seen := hi
      simp only [List.mem_cons, List.map_cons] at hc ⊢
      tauto

-- What has been seen in addition is left out.
theorem firsts_filter : (firsts id seen as).filter (id · ∉ seen') = firsts id (seen ++ seen') as := by
  induction as generalizing seen
  case nil          => rfl
  case cons a as hi =>
    rw [firsts, firsts]
    by_cases ha : id a ∈ seen
    case pos => rw [if_pos ha, if_pos (List.mem_append_left _ ha), hi]
    case neg =>
      rw [if_neg ha]
      by_cases ha' : id a ∈ seen'
      case pos =>
        rw [List.filter_cons_of_neg (by simpa using ha'), hi, if_pos (List.mem_append_right _ ha')]
        refine firsts_congr fun c => ?_
        simp only [List.cons_append, List.mem_cons, List.mem_append, or_iff_right_iff_imp]
        rintro rfl
        exact .inr ha'
      case neg =>
        rw [List.filter_cons_of_pos (by simpa using ha'), hi, if_neg fun h => (List.mem_append.mp h).elim ha ha']
        rfl

theorem sort_perm : (sort key l).Perm l :=
  List.perm_insertionSort _ l

theorem sort_pairwise : (sort key l).Pairwise fun a b => key b ≤ key a :=
  haveI : IsTrans α fun a b => key b ≤ key a := ⟨fun _ _ _ h h' => h'.trans h⟩
  haveI : Std.Total fun a b : α => key b ≤ key a := ⟨fun a b => le_total (key b) (key a)⟩
  List.pairwise_insertionSort _ l

theorem sort_eq_self (h : l.Pairwise fun a b => key b ≤ key a) : sort key l = l :=
  h.insertionSort_eq

theorem sublist_sort (h : as.Pairwise fun a b => key b ≤ key a) (hs : as.Sublist l) : as.Sublist (sort key l) :=
  haveI : IsTrans α fun a b => key b ≤ key a := ⟨fun _ _ _ h h' => h'.trans h⟩
  haveI : Std.Total fun a b : α => key b ≤ key a := ⟨fun a b => le_total (key b) (key a)⟩
  List.sublist_insertionSort h hs

variable {b : β}

theorem orderedInsert_filter :
    (l.orderedInsert (fun a b => key b ≤ key a) x).filter (key · = b) = (x :: l).filter (key · = b) := by
  induction l
  case nil         => rfl
  case cons y l hi =>
    rw [List.orderedInsert_cons]
    split
    case isTrue     => rfl
    case isFalse hn =>
      by_cases hy : key y = b
      case neg =>
        rw [List.filter_cons_of_neg (by simpa using hy), hi, List.filter_cons, List.filter_cons,
          List.filter_cons_of_neg (by simpa using hy)]
      case pos =>
        have hx : key x ≠ b := fun hx => hn (hy.trans hx.symm).le
        have hl : l.filter (key · = b) = (x :: l).filter (key · = b) := by
          rw [List.filter_cons_of_neg (by simpa using hx)]
        rw [List.filter_cons_of_pos (by simpa using hy), hi, ← hl, List.filter_cons_of_neg (by simpa using hx),
          List.filter_cons_of_pos (by simpa using hy)]

-- The order of elements of the same age is kept.
theorem sort_filter_key : (sort key l).filter (key · = b) = l.filter (key · = b) := by
  induction l
  case nil         => rfl
  case cons x l hi =>
    have hs : sort key (x :: l) = (sort key l).orderedInsert (fun a b => key b ≤ key a) x := rfl
    rw [hs, orderedInsert_filter, List.filter_cons, List.filter_cons, hi]

theorem mem_of_filter_key (h : ∀ b, l.filter (key · = b) = l'.filter (key · = b)) (ha : a ∈ l) : a ∈ l' :=
  have hf : a ∈ l.filter (key · = key a) := List.mem_filter.mpr ⟨ha, by simp⟩
  List.mem_of_mem_filter (h (key a) ▸ hf)

-- A sorted list is determined by the order of its elements of each age.
theorem eq_of_pairwise (hl : l.Pairwise fun a b => key b ≤ key a) (hl' : l'.Pairwise fun a b => key b ≤ key a)
    (h : ∀ b, l.filter (key · = b) = l'.filter (key · = b)) : l = l' := by
  induction l generalizing l'
  case nil         =>
    refine (List.eq_nil_iff_forall_not_mem.mpr fun a ha => ?_).symm
    exact absurd (mem_of_filter_key (fun b => (h b).symm) ha) List.not_mem_nil
  case cons x l hi =>
    cases l'
    case nil        => exact absurd (mem_of_filter_key h List.mem_cons_self) List.not_mem_nil
    case cons y l' =>
      have ⟨hx, hl⟩  := List.pairwise_cons.mp hl
      have ⟨hy, hl'⟩ := List.pairwise_cons.mp hl'
      have hk : key x = key y := by
        have hx' := List.mem_cons.mp <| mem_of_filter_key h List.mem_cons_self
        have hy' := List.mem_cons.mp <| mem_of_filter_key (fun b => (h b).symm) List.mem_cons_self
        exact le_antisymm (hx'.elim (· ▸ le_rfl) (hy x)) (hy'.elim (· ▸ le_rfl) (hx y))
      have hf (b : β) : (x = y ∨ key x ≠ b) ∧ l.filter (key · = b) = l'.filter (key · = b) := by
        have hb := h b
        by_cases hc : key x = b
        case pos =>
          rw [List.filter_cons_of_pos (by simpa using hc), List.filter_cons_of_pos (by simpa using hk ▸ hc)] at hb
          exact (List.cons.inj hb).imp_left .inl
        case neg =>
          rw [List.filter_cons_of_neg (by simpa using hc), List.filter_cons_of_neg (by simpa using hk ▸ hc)] at hb
          exact ⟨.inr hc, hb⟩
      rw [(hf (key x)).left.resolve_right (absurd rfl), hi hl hl' fun b => (hf b).right]

theorem sort_filter (p : α → Bool) : sort key (l.filter p) = (sort key l).filter p := by
  refine eq_of_pairwise sort_pairwise (sort_pairwise.filter p) fun b => ?_
  rw [sort_filter_key, List.filter_comm, ← sort_filter_key (l := l), List.filter_comm]

theorem sort_append_sort : sort key (sort key l ++ l') = sort key (l ++ l') := by
  refine eq_of_pairwise sort_pairwise sort_pairwise fun b => ?_
  simp only [sort_filter_key, List.filter_append]

-- What comes after `n` others is not among the first `n`.
theorem not_mem_take (h : (as ++ [x]).Sublist l) (hl : l.Nodup) (hn : n ≤ as.length) : x ∉ l.take n := by
  intro hx
  rw [← List.take_append_drop n l] at h hl
  obtain ⟨l₁, l₂, he, h₁, h₂⟩ := List.sublist_append_iff.mp h
  have hlen : l₁.length ≤ n := h₁.length_le.trans (List.length_take_le n l)
  have hd : x ∈ l.drop n := by
    refine h₂.subset ?_
    obtain ⟨c, rfl, hc⟩ | ⟨c, _, rfl⟩ := List.append_eq_append_iff.mp he
    · rw [List.length_append] at hlen
      have hc' : c = [] := List.eq_nil_of_length_eq_zero (by omega)
      rw [hc', List.nil_append] at hc
      exact hc ▸ List.mem_singleton_self x
    · exact List.mem_append_right c (List.mem_singleton_self x)
  exact (List.nodup_append.mp hl).2.2 x hx x hd rfl

theorem not_mem_newest (h : (as ++ [x]).Pairwise fun a b => key b ≤ key a) (hs : (as ++ [x]).Sublist l) (hl : l.Nodup)
    (hn : n ≤ as.length) : x ∉ newest key n l :=
  not_mem_take (sublist_sort h hs) (sort_perm.nodup_iff.mpr hl) hn

theorem mem_of_mem_newest (h : x ∈ newest key n l) : x ∈ l :=
  sort_perm.subset <| List.mem_of_mem_take h

-- What is not among the first does not count.
theorem newest_filter {p : α → Bool} (h : ∀ x ∈ newest key n l, p x) : newest key n (l.filter p) = newest key n l := by
  unfold newest at h ⊢
  rw [sort_filter]
  generalize sort key l = s at h
  have ht : (s.take n).filter p = s.take n := List.filter_eq_self.mpr h
  have hf : s.filter p = s.take n ++ (s.drop n).filter p := by
    rw [← ht, ← List.filter_append, List.take_append_drop]
  rw [hf]
  by_cases hn : n ≤ s.length
  case pos => exact List.take_left' (List.length_take_of_le hn)
  case neg =>
    rw [List.drop_eq_nil_of_le (not_le.mp hn).le, List.filter_nil, List.append_nil, List.take_take, min_self]

variable (key id) in
-- The newest of all distinct elements.
def feed (n : Nat) (l : List α) : List α :=
  newest key n (firsts id [] l)

theorem feed_pairwise : (feed key id n l).Pairwise fun a b => key b ≤ key a :=
  sort_pairwise.sublist (List.take_sublist n _)

theorem feed_distinct : (feed key id n l).Pairwise fun a b => id a ≠ id b := by
  have hs : (sort key (firsts id [] l)).Pairwise fun a b => id a ≠ id b :=
    (sort_perm.pairwise_iff Ne.symm).mpr firsts_pairwise
  exact hs.sublist (List.take_sublist n _)

-- Elements of the same age are in the order in which they came.
theorem feed_filter_sublist {b : β} : ((feed key id n l).filter (key · = b)).Sublist (l.filter (key · = b)) := by
  have ht : ((feed key id n l).filter (key · = b)).Sublist _ := (List.take_sublist n _).filter _
  rw [sort_filter_key] at ht
  exact ht.trans (firsts_sublist.filter _)

theorem feed_append (h : l.Pairwise fun a b => id a ≠ id b) :
    feed key id n (l ++ l') = newest key n (l ++ firsts id (l.map id) l') := by
  rw [feed, firsts_append, List.nil_append, firsts_eq_self h fun _ _ => List.not_mem_nil]

section

variable {kept cut fresh : List α}

theorem filter_kept (h : (kept ++ cut).Pairwise fun a b => id a ≠ id b) :
    kept.filter (id · ∉ cut.map id) = kept := by
  refine List.filter_eq_self.mpr fun x hx => ?_
  simp only [List.mem_map, decide_eq_true_eq, not_exists, not_and]
  exact fun y hy he => (List.pairwise_append.mp h).2.2 x hx y hy he.symm

-- What has been cut off need not be kept for the sake of what comes later.
theorem newest_append_cut (ho : (kept ++ cut).Pairwise fun a b => key b ≤ key a)
    (hd : (kept ++ cut ++ fresh).Pairwise fun a b => id a ≠ id b) (hn : cut ≠ [] → n ≤ kept.length) :
    newest key n (kept ++ cut ++ fresh) = newest key n (kept ++ fresh) := by
  have ⟨hc, hf, hcf⟩ := List.pairwise_append.mp hd
  have hfilter : (kept ++ cut ++ fresh).filter (id · ∉ cut.map id) = kept ++ fresh := by
    have hcut : cut.filter (id · ∉ cut.map id) = [] :=
      List.filter_eq_nil_iff.mpr fun x hx => by simpa using ⟨x, hx, rfl⟩
    have hfresh : fresh.filter (id · ∉ cut.map id) = fresh := by
      refine List.filter_eq_self.mpr fun x hx => ?_
      simp only [List.mem_map, decide_eq_true_eq, not_exists, not_and]
      exact fun y hy => hcf y (List.mem_append_right kept hy) x hx
    rw [List.filter_append, List.filter_append, filter_kept hc, hcut, hfresh, List.append_nil]
  rw [← hfilter]
  refine (newest_filter fun x hx => ?_).symm
  simp only [List.mem_map, decide_eq_true_eq, not_exists, not_and]
  intro y hy he
  have hsub : (kept ++ [y]).Sublist (kept ++ cut) := (List.singleton_sublist.mpr hy).append_left kept
  have hy' : y ∈ kept ++ cut ++ fresh := List.mem_append_left _ <| List.mem_append_right kept hy
  have hxy : x = y :=
    List.inj_on_of_nodup_map (List.pairwise_map.mpr hd) (mem_of_mem_newest hx) hy' he.symm
  refine not_mem_newest (ho.sublist hsub) (hsub.trans (List.sublist_append_left _ fresh)) ?_ ?_ (hxy ▸ hx)
  · exact hd.imp fun h he => h (congrArg id he)
  · exact hn (List.ne_nil_of_mem hy)

-- Nor need it be remembered: it is cut off again when it is offered once more.
theorem newest_append_offered (ho : (kept ++ cut).Pairwise fun a b => key b ≤ key a)
    (hc : (kept ++ cut).Pairwise fun a b => id a ≠ id b) (hf : (kept ++ fresh).Pairwise fun a b => id a ≠ id b)
    (hn : cut ≠ [] → n ≤ kept.length) (hk : ∀ x ∈ fresh, ∀ y ∈ cut, id y = id x → key y = key x) :
    newest key n (kept ++ fresh) = newest key n (kept ++ fresh.filter (id · ∉ cut.map id)) := by
  have hfilter : (kept ++ fresh).filter (id · ∉ cut.map id) = kept ++ fresh.filter (id · ∉ cut.map id) := by
    rw [List.filter_append, filter_kept hc]
  rw [← hfilter]
  refine (newest_filter fun x hx => ?_).symm
  simp only [List.mem_map, decide_eq_true_eq, not_exists, not_and]
  intro y hy he
  obtain hx' | hx' := List.mem_append.mp (mem_of_mem_newest hx)
  · exact (List.pairwise_append.mp hc).2.2 x hx' y hy he.symm
  have hle : ∀ a ∈ kept, key x ≤ key a := fun a ha => hk x hx' y hy he ▸ (List.pairwise_append.mp ho).2.2 a ha y hy
  have hsub : (kept ++ [x]).Sublist (kept ++ fresh) := (List.singleton_sublist.mpr hx').append_left kept
  refine not_mem_newest ?_ hsub ?_ ?_ hx
  · exact List.pairwise_append.mpr ⟨(List.pairwise_append.mp ho).1, List.pairwise_singleton _ x, by simpa using hle⟩
  · exact hf.imp fun h he => h (congrArg id he)
  · exact hn (List.ne_nil_of_mem hy)

end

-- What has been cut off does not come back, even if it is offered once more.
theorem feed_append_feed (h : ∀ a ∈ l ++ l', ∀ b ∈ l ++ l', id a = id b → key a = key b) :
    feed key id n (feed key id n l ++ l') = feed key id n (l ++ l') := by
  let kept := feed key id n l
  let cut := (sort key (firsts id [] l)).drop n
  have hsort : sort key (firsts id [] l) = kept ++ cut := (List.take_append_drop n _).symm
  have horder : (kept ++ cut).Pairwise fun a b => key b ≤ key a := hsort ▸ sort_pairwise
  have hperm : (kept ++ cut).Perm (firsts id [] l) := hsort ▸ sort_perm
  have hdistinct : (kept ++ cut).Pairwise fun a b => id a ≠ id b := (hperm.pairwise_iff Ne.symm).mpr firsts_pairwise
  have hids (c : γ) : c ∈ kept.map id ++ cut.map id ↔ c ∈ l.map id := by
    rw [← List.map_append, (hperm.map id).mem_iff]
    have hc : c ∈ (firsts id [] l).map id ∨ c ∈ [] ↔ c ∈ l.map id ∨ c ∈ [] := mem_map_firsts
    simpa using hc
  have hfull : cut ≠ [] → n ≤ kept.length := by
    intro hc
    have hl : n < (sort key (firsts id [] l)).length := by simpa [cut] using hc
    exact (List.length_take_of_le hl.le).ge
  have hsub : (firsts id [] l).Sublist l := firsts_sublist
  calc feed key id n (kept ++ l')
    _ = newest key n (kept ++ firsts id (kept.map id) l') := feed_append feed_distinct
    _ = newest key n (kept ++ (firsts id (kept.map id) l').filter (id · ∉ cut.map id)) := by
      refine newest_append_offered horder hdistinct ?_ hfull fun x hx y hy => ?_
      · exact pairwise_append_firsts feed_distinct fun a ha => List.mem_map_of_mem ha
      · refine h y (List.mem_append_left l' ?_) x (List.mem_append_right l <| firsts_sublist.subset hx)
        exact hsub.subset <| hperm.subset <| List.mem_append_right kept hy
    _ = newest key n (kept ++ firsts id (l.map id) l') := by rw [firsts_filter, firsts_congr hids]
    _ = newest key n (kept ++ cut ++ firsts id (l.map id) l') := by
      have hd : (kept ++ cut ++ firsts id (l.map id) l').Pairwise fun a b => id a ≠ id b :=
        pairwise_append_firsts hdistinct fun a ha => List.mem_map_of_mem <| hsub.subset <| hperm.subset ha
      exact (newest_append_cut horder hd hfull).symm
    _ = feed key id n (l ++ l') := by
      rw [feed, firsts_append, List.nil_append, newest, newest, ← hsort, sort_append_sort]

theorem feed_append_of_mem (h : ∀ a ∈ l', id a ∈ l.map id) : feed key id n (l ++ l') = feed key id n l := by
  rw [feed, firsts_append, List.nil_append, firsts_eq_nil h, List.append_nil, feed]

theorem feed_eq_self (hs : l.Pairwise fun a b => key b ≤ key a) (hd : l.Pairwise fun a b => id a ≠ id b)
    (hn : l.length ≤ n) : feed key id n l = l := by
  rw [feed, firsts_eq_self hd (fun _ _ => List.not_mem_nil), newest, sort_eq_self hs, List.take_of_length_le hn]

end Newest
