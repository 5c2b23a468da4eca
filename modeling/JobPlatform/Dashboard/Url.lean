import JobPlatform.Live.Transport
import Mathlib.Data.List.DropRight

namespace JobPlatform.Dashboard

open Live

def normalizeUrlPathname (pathname : String) : String :=
  if pathname = "" ∨ pathname = "/" then
    "/"
  else
    let trimmed := pathname.toList.rdropWhile (· = '/')
    if trimmed.head? = some '/' then .ofList trimmed else .ofList ('/' :: trimmed)

-- The parts between the slashes that are not empty.
def splitSegments (path : String) : List String :=
  (((path.toList.dropWhile (· = '/')).splitOn '/').map String.ofList).filter (· ≠ "")

-- Each turn of the loop compares the last segment of the base path with the next one of the route.
def shiftSegments (baseSegments : List String) : List String → List String
  | []      => []
  | s :: ss => if baseSegments.getLast? = some s then shiftSegments baseSegments ss else s :: ss

def joinUrlPath (basePath nextPath : String) : String :=
  let baseSegments := splitSegments (normalizeUrlPathname basePath)
  let nextSegments := splitSegments (safeTrim nextPath)
  if nextSegments = [] then
    if baseSegments = [] then "/" else "/" ++ "/".intercalate baseSegments
  else
    let merged := baseSegments ++ shiftSegments baseSegments nextSegments
    if merged = [] then "/" else "/" ++ "/".intercalate merged

def path (segments : List String) : String :=
  "/" ++ "/".intercalate segments

structure Segment (s : String) : Prop where
  nonempty  : s ≠ ""
  slashFree : '/' ∉ s.toList
  trimmed   : safeTrim s = s

-- No longer list of segments ends the base path and begins the route.
def LongestOverlap (P O S : List String) : Prop :=
  ∀ overlap, overlap <:+ P ++ O → overlap <+: O ++ S → overlap.length ≤ O.length

variable {P O S base route segments segments' : List String} {s : String}

theorem toList_path : (path segments).toList = '/' :: ['/'].intercalate (segments.map String.toList) := by
  rw [path, String.toList_append, String.toList_intercalate]
  rfl

theorem toList_path_cons (s s' : String) (ss : List String) :
    (path (s :: s' :: ss)).toList = '/' :: s.toList ++ (path (s' :: ss)).toList := by
  simp [toList_path, List.intercalate]

theorem last_suffix (h : segments.getLast? = some s) : s.toList <:+ (path segments).toList := by
  induction segments
  case nil             => cases h
  case cons head ss hi =>
    cases ss
    case nil        =>
      cases h
      simp [toList_path, List.intercalate]
    case cons s' ss =>
      rw [toList_path_cons]
      exact (hi (by simpa using h)).trans (List.suffix_append ..)

namespace Segment

theorem toList_ne_nil (h : Segment s) : s.toList ≠ [] :=
  fun hn => h.nonempty (String.toList_eq_nil_iff.mp hn)

theorem last_ne_slash (h : Segment s) : s.toList.getLast? ≠ some '/' :=
  fun hl => h.slashFree (List.mem_of_getLast? hl)

-- A segment does not end with a blank.
theorem last_ne_blank {c : Char} (h : Segment s) (hl : s.toList.getLast? = some c) : isWhiteSpace c = false := by
  have ht : (s.toList.dropWhile isWhiteSpace).rdropWhile isWhiteSpace = s.toList := by
    have ht := congrArg String.toList h.trimmed
    rwa [safeTrim, String.toList_ofList] at ht
  have hp : (s.toList.dropWhile isWhiteSpace).rdropWhile isWhiteSpace <+: s.toList.dropWhile isWhiteSpace :=
    List.rdropWhile_prefix ..
  rw [ht] at hp
  have hd : s.toList.dropWhile isWhiteSpace = s.toList :=
    (List.dropWhile_suffix _).eq_of_length_le hp.length_le
  rw [hd] at ht
  have hw := List.rdropWhile_eq_self_iff.mp ht h.toList_ne_nil
  rw [List.getLast?_eq_some_getLast h.toList_ne_nil] at hl
  cases hl
  exact Bool.eq_false_iff.mpr hw

end Segment

theorem splitSegments_path (h : ∀ s ∈ segments, Segment s) : splitSegments (path segments) = segments := by
  have hd : (path segments).toList.dropWhile (· = '/') = ['/'].intercalate (segments.map String.toList) := by
    rw [toList_path]
    cases segments
    case nil       => rfl
    case cons s ss =>
      have hs := h s List.mem_cons_self
      cases hl : s.toList
      case nil       => exact absurd hl hs.toList_ne_nil
      case cons c cs =>
        have hc : c ≠ '/' := fun hc => hs.slashFree (by rw [hl, hc]; exact List.mem_cons_self)
        cases ss <;> simp [List.intercalate, hl, hc]
  unfold splitSegments
  rw [hd]
  by_cases hn : segments = []
  case pos => subst hn; rfl
  case neg =>
    rw [List.splitOn_intercalate _ ?_ (by simpa using hn), List.map_map]
    · simp only [Function.comp_def, String.ofList_toList, List.map_id']
      exact List.filter_eq_self.mpr fun s hs => by simpa using (h s hs).nonempty
    · intro l hl
      obtain ⟨s, hs, rfl⟩ := List.mem_map.mp hl
      exact (h s hs).slashFree

-- A path with segments ends as the last of them does.
theorem getLast?_path (h : ∀ s ∈ segments, Segment s) (hl : segments.getLast? = some s) :
    (path segments).toList.getLast? = s.toList.getLast? := by
  have hs := h s (List.mem_of_getLast? hl)
  obtain ⟨front, hf⟩ := last_suffix hl
  rw [← hf, List.getLast?_append_of_ne_nil _ hs.toList_ne_nil]

theorem normalizeUrlPathname_path (h : ∀ s ∈ segments, Segment s) :
    normalizeUrlPathname (path segments) = path segments := by
  unfold normalizeUrlPathname
  cases hl : segments.getLast?
  case none   =>
    rw [List.getLast?_eq_none_iff.mp hl]
    rfl
  case some s =>
    have hn : (path segments).toList.getLast? ≠ some '/' := by
      rw [getLast?_path h hl]
      exact (h s (List.mem_of_getLast? hl)).last_ne_slash
    have hr : (path segments).toList.rdropWhile (· = '/') = (path segments).toList := by
      refine List.rdropWhile_eq_self_iff.mpr fun hne hs => hn ?_
      rw [List.getLast?_eq_some_getLast hne, of_decide_eq_true hs]
    have hh : (path segments).toList.head? = some '/' := by
      rw [toList_path]
      rfl
    have he : ¬(path segments = "" ∨ path segments = "/") := by
      rintro (he | he)
      · rw [he] at hh
        cases hh
      · rw [he] at hn
        exact hn rfl
    rw [if_neg he, hr, if_pos hh, String.ofList_toList]

theorem safeTrim_path (h : ∀ s ∈ segments, Segment s) : safeTrim (path segments) = path segments := by
  have hd : (path segments).toList.dropWhile isWhiteSpace = (path segments).toList := by
    rw [toList_path]
    rfl
  have hr : (path segments).toList.rdropWhile isWhiteSpace = (path segments).toList := by
    refine List.rdropWhile_eq_self_iff.mpr fun hne hw => ?_
    cases hl : segments.getLast?
    case none   =>
      cases List.getLast?_eq_none_iff.mp hl
      cases hw
    case some s =>
      have hc := getLast?_path h hl
      rw [List.getLast?_eq_some_getLast hne] at hc
      have hb := (h s (List.mem_of_getLast? hl)).last_ne_blank hc.symm
      exact Bool.false_ne_true (hb.symm.trans hw)
  have ht (p : String) : safeTrim p = .ofList ((p.toList.dropWhile isWhiteSpace).rdropWhile isWhiteSpace) :=
    rfl
  rw [ht, hd, hr, String.ofList_toList]

theorem path_injective (h : ∀ s ∈ segments, Segment s) (h' : ∀ s ∈ segments', Segment s)
    (hp : path segments = path segments') : segments = segments' := by
  rw [← splitSegments_path h, hp, splitSegments_path h']

-- What the code makes of the two paths.
theorem joinUrlPath_path (hb : ∀ s ∈ base, Segment s) (hr : ∀ s ∈ route, Segment s) :
    joinUrlPath (path base) (path route) = path (base ++ shiftSegments base route) := by
  unfold joinUrlPath
  rw [normalizeUrlPathname_path hb, safeTrim_path hr, splitSegments_path hb, splitSegments_path hr]
  have hp (ss : List String) : (if ss = [] then "/" else "/" ++ "/".intercalate ss) = path ss :=
    ite_eq_right_iff.mpr fun hn => hn ▸ rfl
  dsimp only
  split
  case isTrue hn => rw [hp, hn, shiftSegments, List.append_nil]
  case isFalse   => exact hp _

theorem shiftSegments_sublist : List.Sublist (shiftSegments base route) route := by
  induction route
  case nil          => exact .slnil
  case cons s ss hi =>
    unfold shiftSegments
    split
    · exact hi.cons s
    · exact .refl _

theorem shiftSegments_eq_self (h : ∀ s ∈ S.head?, base.getLast? ≠ some s) : shiftSegments base S = S := by
  cases S
  case nil         => rfl
  case cons s rest => rw [shiftSegments, if_neg (h s rfl)]

theorem shiftSegments_eq_self_iff (hl : base.getLast? = some s) :
    shiftSegments base S = S ↔ S.head? ≠ some s := by
  constructor
  case mp  =>
    intro hs hh
    obtain ⟨rest, rfl⟩ := List.head?_eq_some_iff.mp hh
    have hle := (@shiftSegments_sublist base rest).length_le
    rw [shiftSegments, if_pos hl] at hs
    rw [hs, List.length_cons] at hle
    omega
  case mpr =>
    exact fun hh => shiftSegments_eq_self fun s' hs he => hh (Option.some.inj (hl.symm.trans he) ▸ hs)

-- The loop takes away the overlap, and nothing else, if the overlap consists of one segment, maybe repeated, with
-- which the rest does not begin.
theorem shiftSegments_append_iff (hl : base.getLast? = some s) (hn : O ≠ []) :
    shiftSegments base (O ++ S) = S ↔ (∀ o ∈ O, o = s) ∧ S.head? ≠ some s := by
  induction O
  case nil          => exact absurd rfl hn
  case cons o os hi =>
    rw [List.cons_append, shiftSegments, hl]
    split
    case isTrue he  =>
      cases he
      cases os
      case nil        => simpa using shiftSegments_eq_self_iff hl
      case cons o' os =>
        rw [hi (List.cons_ne_nil _ _)]
        simp
    case isFalse he =>
      refine iff_of_false (fun hs => ?_) fun hs => he <| congrArg some (hs.left o List.mem_cons_self).symm
      have hlen := congrArg List.length hs
      simp only [List.length_cons, List.length_append] at hlen
      omega

-- The paths are joined without loss if and only if the overlap is a single segment, maybe repeated, and the rest of
-- the route does not begin with it.
theorem joinUrlPath_joins_iff (hs : ∀ s ∈ P ++ O ++ S, Segment s) (hl : LongestOverlap P O S) :
    joinUrlPath (path (P ++ O)) (path (O ++ S)) = path (P ++ O ++ S) ↔
      ∀ s ∈ O, O.getLast? = some s ∧ S.head? ≠ some s := by
  have hb (s) (h : s ∈ P ++ O) : Segment s := hs s (List.mem_append_left S h)
  have hr (s) (h : s ∈ O ++ S) : Segment s :=
    hs s (List.append_assoc P O S ▸ List.mem_append_right P h)
  have hm (s) (h : s ∈ P ++ O ++ shiftSegments (P ++ O) (O ++ S)) : Segment s :=
    (List.mem_append.mp h).elim (hb s) fun h => hr s (shiftSegments_sublist.subset h)
  have hj : joinUrlPath (path (P ++ O)) (path (O ++ S)) = path (P ++ O ++ S) ↔
      shiftSegments (P ++ O) (O ++ S) = S := by
    rw [joinUrlPath_path hb hr]
    exact ⟨fun hp => List.append_cancel_left (path_injective hm hs hp), fun he => by rw [he]⟩
  rw [hj]
  cases ho : O.getLast?
  case none   =>
    cases List.getLast?_eq_none_iff.mp ho
    refine iff_of_true (shiftSegments_eq_self fun s hh hp => ?_) nofun
    obtain ⟨front, hp⟩ := List.getLast?_eq_some_iff.mp hp
    obtain ⟨rest, rfl⟩ := List.head?_eq_some_iff.mp hh
    have hle := hl [s] ⟨front, hp.symm⟩ ⟨rest, rfl⟩
    exact Nat.not_succ_le_zero 0 hle
  case some o =>
    have hn : O ≠ [] := List.ne_nil_of_mem (List.mem_of_getLast? ho)
    have hlast : (P ++ O).getLast? = some o := by rw [List.getLast?_append_of_ne_nil _ hn, ho]
    rw [shiftSegments_append_iff hlast hn]
    constructor
    case mp  => exact fun ⟨hall, hh⟩ s hs => ⟨congrArg some (hall s hs).symm, (hall s hs).symm ▸ hh⟩
    case mpr =>
      intro h
      exact ⟨fun s hs => (Option.some.inj (h s hs).left).symm, (h o (List.mem_of_getLast? ho)).right⟩

section

private theorem segment_of_mem : ∀ s ∈ ["platform", "api", "v1", "jobs"], Segment s := by
  simp only [List.forall_mem_cons]
  exact ⟨⟨by decide, by decide, by decide⟩, ⟨by decide, by decide, by decide⟩, ⟨by decide, by decide, by decide⟩,
    ⟨by decide, by decide, by decide⟩, fun _ h => by cases h⟩

private theorem longestOverlap_platform : LongestOverlap ["platform"] ["api"] ["v1", "jobs"] := by
  intro overlap hs hp
  by_contra hn
  have he : overlap = ["platform", "api"] := hs.eq_of_length_le (not_le.mp hn)
  rw [he] at hp
  exact absurd (List.cons_prefix_cons.mp hp).left (by decide)

theorem joinUrlPath_joins_iff_sample :
    joinUrlPath (path ["platform", "api"]) (path ["api", "v1", "jobs"]) =
        path ["platform", "api", "v1", "jobs"] ↔
      ∀ s ∈ ["api"], ["api"].getLast? = some s ∧ ["v1", "jobs"].head? ≠ some s :=
  joinUrlPath_joins_iff (P := ["platform"]) segment_of_mem longestOverlap_platform

-- The base URL already ends with the whole prefix of the routes.
theorem not_joins_of_prefix :
    (∀ s ∈ [] ++ ["api", "v1"] ++ ["jobs"], Segment s) ∧ LongestOverlap [] ["api", "v1"] ["jobs"] ∧
    path ([] ++ ["api", "v1"]) = "/api/v1" ∧ path (["api", "v1"] ++ ["jobs"]) = "/api/v1/jobs" ∧
    joinUrlPath "/api/v1" "/api/v1/jobs" = "/api/v1/api/v1/jobs" ∧
    joinUrlPath "/api/v1" "/api/v1/jobs" ≠ path ([] ++ ["api", "v1"] ++ ["jobs"]) :=
  ⟨fun s hs => segment_of_mem s (List.mem_cons_of_mem _ hs), fun _ hs _ => hs.length_le, by decide, by decide,
    by decide, by decide⟩

end

end JobPlatform.Dashboard
