import Mathlib.Data.List.Basic
import PhysMem.Proofs.FrameUse

/-!
# The chain — frames strung from the oldest to the newest

The links of the resident frames form a list: each frame names its two neighbours, the ends of the
chain are the ends of the list, and a frame off the chain names nobody. Three edits change the list,
and every other step of the coremap leaves all links alone.

* **`Linked`** says that the links are those of a list.
* **`Linked.pushNewest`**, **`Linked.pushOldest`** add a frame at one end, **`Linked.unlink`** takes
  one out wherever it stands.
-/

namespace PhysMem.Coremap

variable {m m' m'' : Coremap} {i : Nat} {l : List Nat}

/-- The neighbours that frame `i` names, the older one first. -/
def link? (m : Coremap) (i : Nat) : Option (Option Nat × Option Nat) :=
  (m.frames[i]?).map fun d => (d.prev, d.next)

/-- The links are those of the list `l`, from the oldest frame to the newest. -/
structure Linked (m : Coremap) (l : List Nat) : Prop where
  nodup : l.Nodup
  oldest : m.oldest = l.head?
  newest : m.newest = l.getLast?
  link : ∀ older i newer, l = older ++ i :: newer →
    m.link? i = some (older.getLast?, newer.head?)
  off : ∀ i, i ∉ l → ∀ link, m.link? i = some link → link = (none, none)

/-- Both coremaps have the same links. -/
structure SameLinks (m m' : Coremap) : Prop where
  oldest : m'.oldest = m.oldest
  newest : m'.newest = m.newest
  link : ∀ x, m'.link? x = m.link? x

theorem SameLinks.refl (m : Coremap) : m.SameLinks m := ⟨rfl, rfl, fun _ => rfl⟩

theorem SameLinks.trans (h : m.SameLinks m') (h' : m'.SameLinks m'') : m.SameLinks m'' :=
  ⟨h'.oldest.trans h.oldest, h'.newest.trans h.newest, fun x => (h'.link x).trans (h.link x)⟩

theorem Linked.of_sameLinks (hl : m.Linked l) (h : m.SameLinks m') : m'.Linked l := by
  refine ⟨hl.nodup, h.oldest.trans hl.oldest, h.newest.trans hl.newest, ?_, ?_⟩
  · intro older i newer he
    rw [h.link]
    exact hl.link older i newer he
  · intro i hi link
    rw [h.link]
    exact hl.off i hi link

/-! ## Links of single frames -/

theorem link?_of_frame {d : Descriptor} (h : m.frame i = .ok d) :
    m.link? i = some (d.prev, d.next) := by
  unfold link?
  rw [frame_ok h]
  rfl

theorem link?_put {d : Descriptor} (hi : i < m.size) (x : Nat) :
    (m.put i d).link? x = if x = i then some (d.prev, d.next) else m.link? x := by
  unfold link? put
  by_cases hx : x = i
  · subst hx
    rw [if_pos rfl, Array.getElem?_setIfInBounds_self_of_lt hi]
    rfl
  · rw [if_neg hx, Array.getElem?_setIfInBounds_ne (Ne.symm hx)]

/-- A descriptor replaced by one with the same neighbours. -/
theorem put_sameLinks {d e : Descriptor} (h : m.frame i = .ok d) (hprev : e.prev = d.prev)
    (hnext : e.next = d.next) : m.SameLinks (m.put i e) := by
  refine ⟨rfl, rfl, fun x => ?_⟩
  rw [link?_put (lt_size_of_frame h), hprev, hnext]
  split
  · next hx => rw [hx, link?_of_frame h]
  · rfl

/-- A coremap that differs in its counts and its placement has the same links. -/
theorem sameLinks_of_frames (hf : m'.frames = m.frames) (ho : m'.oldest = m.oldest)
    (hn : m'.newest = m.newest) : m.SameLinks m' := by
  refine ⟨ho, hn, fun x => ?_⟩
  unfold link?
  rw [hf]

/-- The frame at one place gets new neighbours. -/
theorem link?_update {f : Descriptor → Descriptor} {g : Option Nat × Option Nat →
    Option Nat × Option Nat} (h : m.update i f = .ok m')
    (hf : ∀ d, ((f d).prev, (f d).next) = g (d.prev, d.next)) :
    m'.oldest = m.oldest ∧ m'.newest = m.newest ∧
      ∀ x, m'.link? x = if x = i then (m.link? x).map g else m.link? x := by
  obtain ⟨d, hd, h⟩ := Fault.bind_eq_ok.mp h
  cases h
  refine ⟨rfl, rfl, fun x => ?_⟩
  rw [link?_put (lt_size_of_frame hd)]
  split
  · next hx => rw [hx, link?_of_frame hd, hf]; rfl
  · rfl

theorem Linked.link_of_frame {d : Descriptor} (hl : m.Linked l) (h : m.frame i = .ok d)
    (hi : i ∉ l) : d.prev = none ∧ d.next = none := by
  have := hl.off i hi _ (link?_of_frame h)
  exact ⟨congrArg Prod.fst this, congrArg Prod.snd this⟩

/-! ## Joining the chain -/

/-- What joining at the newest end does to the links. -/
theorem pushNewest_links (h : m.pushNewest i = .ok m') : ∃ d, m.frame i = .ok d ∧
    d.prev = none ∧ d.next = none ∧ m'.newest = some i ∧
    m'.oldest = (if m.newest.isSome then m.oldest else some i) ∧
    ∀ x, m'.link? x =
      if m.newest = some x then
        (if x = i then some (m.newest, some i) else (m.link? x).map fun l => (l.1, some i))
      else if x = i then some (m.newest, none) else m.link? x := by
  cases pushNewest_cases h with
  | @behind d last m₁ hd hoff hlast hlink =>
      have hput := link?_put (d := { d with prev := m.newest }) (lt_size_of_frame hd)
      obtain ⟨hold, -, hlink⟩ :=
        link?_update (g := fun l => (l.1, some i)) hlink fun _ => rfl
      refine ⟨d, hd, hoff.1, hoff.2, ?_⟩
      rw [hlast]
      refine ⟨rfl, hold, fun x => ?_⟩
      show m₁.link? x = _
      rw [hlink, hput]
      by_cases hx : x = last
      · subst hx
        rw [if_pos rfl, if_pos rfl]
        split
        · rw [hlast]
          rfl
        · rfl
      · rw [if_neg hx, if_neg fun he => hx (Option.some.inj he).symm, hlast, hoff.2]
  | @alone d hd hoff hnewest =>
      have hput := link?_put (d := { d with prev := m.newest }) (lt_size_of_frame hd)
      refine ⟨d, hd, hoff.1, hoff.2, rfl, ?_, fun x => ?_⟩
      · rw [hnewest]
        rfl
      · refine (hput x).trans ?_
        simp only [hnewest, hoff.2, reduceCtorEq, if_false]

/-- **A frame joins the chain as its newest.** -/
theorem Linked.pushNewest (hl : m.Linked l) (hi : i ∉ l) (h : m.pushNewest i = .ok m') :
    m'.Linked (l ++ [i]) := by
  obtain ⟨d, hd, hprev, hnext, hnew, hold, hlink⟩ := pushNewest_links h
  have hne : ∀ x ∈ l, x ≠ i := fun x hx he => hi (he ▸ hx)
  refine ⟨List.nodup_append.mpr ⟨hl.nodup, List.pairwise_singleton _ i, ?_⟩, ?_, ?_, ?_, ?_⟩
  · intro a ha b hb
    rw [List.mem_singleton.mp hb]
    exact hne a ha
  · rw [hold, hl.newest, hl.oldest]
    cases l with
    | nil => rfl
    | cons a rest => simp
  · rw [hnew, List.getLast?_append]
    rfl
  · intro older x newer he
    rw [hlink]
    rcases List.eq_nil_or_concat newer with rfl | ⟨init, last, rfl⟩
    · -- the frame itself
      obtain ⟨rfl, hx⟩ := List.append_inj' he rfl
      obtain rfl : i = x := List.head_eq_of_cons_eq hx
      rw [if_neg, if_pos rfl, hl.newest]
      · rfl
      · rw [hl.newest]
        intro hlast
        exact hi (List.mem_of_getLast? hlast)
    · -- a frame of the chain, whose newer neighbour may be the frame
      have he' : l ++ [i] = (older ++ x :: init) ++ [last] := by
        rw [he]
        simp
      obtain ⟨rfl, hlast⟩ := List.append_inj' he' rfl
      obtain rfl : i = last := List.head_eq_of_cons_eq hlast
      have hxi : x ≠ i := hne x (List.mem_append_right _ List.mem_cons_self)
      rw [hl.newest, if_neg hxi, if_neg hxi, hl.link older x init rfl]
      cases init with
      | nil => rw [if_pos (by simp)]; rfl
      | cons y rest =>
          rw [if_neg]
          · rfl
          · intro hlast
            have hmem : x ∈ y :: rest := by
              rw [List.getLast?_append_cons, List.getLast?_cons_cons] at hlast
              exact List.mem_of_getLast? hlast
            have hnd := (List.nodup_append.mp hl.nodup).2.1
            exact (List.nodup_cons.mp hnd).1 hmem
  · intro x hx link
    rw [hlink]
    have hxl : x ∉ l := fun hmem => hx (List.mem_append_left _ hmem)
    have hxi : x ≠ i := fun he => hx (by rw [he]; simp)
    rw [if_neg, if_neg hxi]
    · exact hl.off x hxl link
    · rw [hl.newest]
      intro hlast
      exact hxl (List.mem_of_getLast? hlast)

/-- What joining at the oldest end does to the links. -/
theorem pushOldest_links (h : m.pushOldest i = .ok m') : ∃ d, m.frame i = .ok d ∧
    d.prev = none ∧ d.next = none ∧ m'.oldest = some i ∧
    m'.newest = (if m.oldest.isSome then m.newest else some i) ∧
    ∀ x, m'.link? x =
      if m.oldest = some x then
        (if x = i then some (some i, m.oldest) else (m.link? x).map fun l => (some i, l.2))
      else if x = i then some (none, m.oldest) else m.link? x := by
  cases pushOldest_cases h with
  | @before d first m₁ hd hoff hfirst hlink =>
      have hput := link?_put (d := { d with next := m.oldest }) (lt_size_of_frame hd)
      obtain ⟨-, hnew, hlink⟩ :=
        link?_update (g := fun l => (some i, l.2)) hlink fun _ => rfl
      refine ⟨d, hd, hoff.1, hoff.2, ?_⟩
      rw [hfirst]
      refine ⟨rfl, hnew, fun x => ?_⟩
      show m₁.link? x = _
      rw [hlink, hput]
      by_cases hx : x = first
      · subst hx
        rw [if_pos rfl, if_pos rfl]
        split
        · rw [hfirst]
          rfl
        · rfl
      · rw [if_neg hx, if_neg fun he => hx (Option.some.inj he).symm, hfirst, hoff.1]
  | @alone d hd hoff holdest =>
      have hput := link?_put (d := { d with next := m.oldest }) (lt_size_of_frame hd)
      refine ⟨d, hd, hoff.1, hoff.2, rfl, ?_, fun x => ?_⟩
      · rw [holdest]
        rfl
      · refine (hput x).trans ?_
        simp only [holdest, hoff.1, reduceCtorEq, if_false]

/-- **A frame joins the chain as its oldest.** -/
theorem Linked.pushOldest (hl : m.Linked l) (hi : i ∉ l) (h : m.pushOldest i = .ok m') :
    m'.Linked (i :: l) := by
  obtain ⟨d, hd, hprev, hnext, hold, hnew, hlink⟩ := pushOldest_links h
  have hhead : m.oldest ≠ some i := by
    rw [hl.oldest]
    intro hfirst
    exact hi (List.mem_of_head? hfirst)
  refine ⟨List.nodup_cons.mpr ⟨hi, hl.nodup⟩, hold, ?_, ?_, ?_⟩
  · rw [hnew, hl.oldest, hl.newest]
    cases l with
    | nil => rfl
    | cons a rest => simp
  · intro older x newer he
    rw [hlink]
    cases older with
    | nil =>
        cases he
        rw [if_neg hhead, if_pos rfl, hl.oldest]
        rfl
    | cons y rest =>
        -- a frame of the chain, whose older neighbour may be the frame
        obtain ⟨rfl, rfl⟩ := List.cons.inj he
        have hxi : x ≠ i := fun hxi => hi (by rw [← hxi]; simp)
        rw [hl.oldest, if_neg hxi, if_neg hxi, hl.link rest x newer rfl]
        cases rest with
        | nil => exact if_pos rfl
        | cons y rest =>
            rw [if_neg, List.getLast?_cons_cons]
            intro hfirst
            obtain rfl : y = x := Option.some.inj hfirst
            exact (List.nodup_cons.mp hl.nodup).1 (List.mem_append_right _ List.mem_cons_self)
  · intro x hx link
    rw [hlink]
    have hxl : x ∉ l := fun hmem => hx (List.mem_cons_of_mem _ hmem)
    have hxi : x ≠ i := fun he => hx (by rw [he]; exact List.mem_cons_self)
    rw [if_neg, if_neg hxi]
    · exact hl.off x hxl link
    · rw [hl.oldest]
      intro hfirst
      exact hxl (List.mem_of_head? hfirst)

/-! ## Leaving the chain -/

/-- What leaving does to the links: the neighbours are joined to each other. -/
theorem unlink_links (h : m.unlink i = .ok m') : ∃ d, m.frame i = .ok d ∧
    (d.prev = none → m.oldest = some i) ∧
    m'.oldest = (if d.prev.isSome then m.oldest else d.next) ∧
    m'.newest = (if d.next.isSome then m.newest else d.prev) ∧
    ∀ x, m'.link? x = (if x = i then some (none, none) else m.link? x).map fun l =>
      (if d.next = some x then d.prev else l.1, if d.prev = some x then d.next else l.2) := by
  obtain ⟨d, m₁, hd, hprev, hnext⟩ := unlink_steps h
  have hput := link?_put (d := { d with prev := none, next := none }) (lt_size_of_frame hd)
  -- first the older neighbour gets a new newer one
  have hstep : (d.prev = none → m.oldest = some i) ∧
      m₁.oldest = (if d.prev.isSome then m.oldest else d.next) ∧ m₁.newest = m.newest ∧
      ∀ x, m₁.link? x = (if x = i then some (none, none) else m.link? x).map fun l =>
        (l.1, if d.prev = some x then d.next else l.2) := by
    cases hp : d.prev with
    | some before =>
        rw [hp] at hprev
        obtain ⟨hold, hnew, hlink⟩ :=
          link?_update (g := fun l => (l.1, d.next)) hprev fun _ => rfl
        refine ⟨nofun, hold, hnew, fun x => ?_⟩
        rw [hlink, hput]
        by_cases hx : x = before
        · subst hx
          simp only [if_true]
        · simp only [hx, if_false, Option.some.injEq, Ne.symm hx, Option.map_id']
    | none =>
        rw [hp] at hprev
        obtain ⟨hfirst, rfl⟩ := hprev
        refine ⟨fun _ => hfirst, rfl, rfl, fun x => ?_⟩
        refine (hput x).trans ?_
        simp only [reduceCtorEq, if_false, Option.map_id']
  obtain ⟨hfirst, hold₁, hnew₁, hlink₁⟩ := hstep
  refine ⟨d, hd, hfirst, ?_⟩
  cases hn : d.next with
  | some after =>
      rw [hn] at hnext hold₁ hlink₁
      obtain ⟨hold, hnew, hlink⟩ := link?_update (g := fun l => (d.prev, l.2)) hnext fun _ => rfl
      refine ⟨hold.trans hold₁, hnew.trans hnew₁, fun x => ?_⟩
      rw [hlink, hlink₁]
      by_cases hx : x = after
      · subst hx
        simp only [if_true, Option.map_map, Function.comp_def]
      · simp only [hx, if_false, Option.some.injEq, Ne.symm hx]
  | none =>
      rw [hn] at hnext hold₁ hlink₁
      obtain ⟨-, rfl⟩ := hnext
      refine ⟨hold₁, rfl, fun x => ?_⟩
      show m₁.link? x = _
      rw [hlink₁]
      simp only [reduceCtorEq, if_false]

/-- **A frame leaves the chain**, wherever it stands, and a frame off the chain cannot. -/
theorem Linked.unlink (hl : m.Linked l) (h : m.unlink i = .ok m') :
    ∃ older newer, l = older ++ i :: newer ∧ m'.Linked (older ++ newer) := by
  obtain ⟨d, hd, hfirst, hold, hnew, hlink⟩ := unlink_links h
  have hi : i ∈ l := by
    refine Decidable.byContradiction fun hi => hi ?_
    have hhead := hfirst (hl.link_of_frame hd hi).1
    rw [hl.oldest] at hhead
    exact List.mem_of_head? hhead
  obtain ⟨older, newer, rfl⟩ := List.append_of_mem hi
  have hd' : (d.prev, d.next) = (older.getLast?, newer.head?) := by
    have := hl.link older i newer rfl
    rw [link?_of_frame hd] at this
    exact Option.some.inj this
  obtain ⟨hprev, hnext⟩ := Prod.mk.inj hd'
  obtain ⟨hndo, hndn, hapart⟩ := List.nodup_append.mp hl.nodup
  obtain ⟨hin, hndn⟩ := List.nodup_cons.mp hndn
  have hio : i ∉ older := fun hmem => hapart i hmem i List.mem_cons_self rfl
  have hon : ∀ x ∈ older, x ∉ newer := fun x hx hx' =>
    hapart x hx x (List.mem_cons_of_mem _ hx') rfl
  have hmem : ∀ x ∈ older ++ newer, x ≠ i := by
    rintro x hx rfl
    exact (List.mem_append.mp hx).elim hio hin
  refine ⟨older, newer, rfl, ?_, ?_, ?_, ?_, ?_⟩
  · exact List.nodup_append.mpr ⟨hndo, hndn, fun a ha b hb he => hon a ha (he ▸ hb)⟩
  · rw [hold, hprev, hl.oldest, hnext]
    cases older with
    | nil => rfl
    | cons a rest => simp
  · rw [hnew, hprev, hl.newest, hnext, List.getLast?_append_cons]
    cases newer with
    | nil => simp
    | cons a rest =>
        rw [List.getLast?_append_cons, List.getLast?_cons_cons]
        rfl
  · intro older₂ x newer₂ he
    have hx : x ∈ older ++ newer := by rw [he]; simp
    rw [hlink, if_neg (hmem x hx), hprev, hnext]
    rcases List.append_eq_append_iff.mp he with ⟨between, rfl, rfl⟩ | ⟨between, rfl, hb⟩
    · -- the frame is newer than the one that leaves
      have hlast : ¬ older.getLast? = some x := fun hlast =>
        hon x (List.mem_of_getLast? hlast) (by simp)
      rw [hl.link (older ++ i :: between) x newer₂ (by simp)]
      simp only [Option.map_some, if_neg hlast]
      cases between with
      | nil => simp
      | cons y rest =>
          have hy : ¬ some y = some x := by
            rintro ⟨⟩
            exact (List.nodup_cons.mp hndn).1 (by simp)
          simp only [List.cons_append, List.head?_cons, if_neg hy, List.getLast?_append_cons,
            List.getLast?_cons_cons]
    · cases between with
      | nil =>
          -- the frame is the next newer one
          cases hb
          have hlast : ¬ (older₂ ++ []).getLast? = some x := fun hlast =>
            hon x (List.mem_of_getLast? hlast) List.mem_cons_self
          rw [hl.link ((older₂ ++ []) ++ [i]) x newer₂ (by simp)]
          simp only [Option.map_some, if_neg hlast]
          simp
      | cons y rest =>
          -- the frame is older than the one that leaves
          obtain ⟨rfl, rfl⟩ := List.cons.inj hb
          have hfirst : ¬ newer.head? = some x := fun hfirst =>
            hon x (by simp) (List.mem_of_head? hfirst)
          rw [hl.link older₂ x (rest ++ i :: newer) (by simp)]
          simp only [Option.map_some, if_neg hfirst, List.getLast?_append_cons]
          cases rest with
          | nil => simp
          | cons y rest =>
              have hlast : ¬ (y :: rest).getLast? = some x := by
                intro hlast
                have hnd := (List.nodup_append.mp hndo).2.1
                exact (List.nodup_cons.mp hnd).1 (List.mem_of_getLast? hlast)
              rw [List.getLast?_cons_cons, if_neg hlast]
              rfl
  · intro x hx link
    rw [hlink]
    by_cases hxi : x = i
    · subst hxi
      have hfirst : ¬ newer.head? = some x := fun hfirst => hin (List.mem_of_head? hfirst)
      have hlast : ¬ older.getLast? = some x := fun hlast => hio (List.mem_of_getLast? hlast)
      rw [if_pos rfl, hprev, hnext, Option.map_some, if_neg hfirst, if_neg hlast]
      exact fun he => (Option.some.inj he).symm
    · have hxl : x ∉ older ++ i :: newer := by
        intro hmem
        rcases List.mem_append.mp hmem with ho | hn
        · exact hx (List.mem_append_left _ ho)
        · rcases List.mem_cons.mp hn with he | hn
          · exact hxi he
          · exact hx (List.mem_append_right _ hn)
      have hfirst : ¬ newer.head? = some x := fun hfirst =>
        hx (List.mem_append_right _ (List.mem_of_head? hfirst))
      have hlast : ¬ older.getLast? = some x := fun hlast =>
        hx (List.mem_append_left _ (List.mem_of_getLast? hlast))
      rw [if_neg hxi, hprev, hnext]
      simp only [if_neg hfirst, if_neg hlast, Option.map_id']
      exact hl.off x hxl link

end PhysMem.Coremap
