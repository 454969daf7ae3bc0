import PhysMem.Proofs.Tally
import PhysMem.Proofs.Verification

/-!
# Verification finds nothing wrong with an exact coremap

The links of a sound coremap string its resident frames, each of its descriptors agrees with its
role, and the counters of an exact one are those of a recount. So it is well formed.

* **`Linked.chain`**, **`Linked.chainBack`** — the walks list the chain.
* **`Exact.wellFormed`** and with it **`Exact.flaw?_eq_none`** are the result.
-/

namespace PhysMem.Coremap

variable {m : Coremap} {i : Nat} {l : List Nat}

/-! ## Walks -/

/-- What frame `i` names as its neighbours, read off the descriptor. -/
theorem Linked.neighbours (hl : m.Linked l) {older newer : List Nat}
    (h : l = older ++ i :: newer) : ∃ d, m.frames[i]? = some d ∧ d.prev = older.getLast? ∧
      d.next = newer.head? :=
  hl.strung.link older i newer h

theorem Linked.lt_size (hl : m.Linked l) (hi : i ∈ l) : i < m.size := hl.strung.lt_size hi

/-- **The chain is listed** by the walk from its oldest frame. -/
theorem Linked.chain (hl : m.Linked l) : m.chain = l := hl.strung.chain

/-- **The chain is listed backwards** by the walk from its newest frame. -/
theorem Linked.chainBack (hl : m.Linked l) : m.chainBack = l.reverse := hl.strung.chainBack

/-! ## Roles -/

/-- The resident frames of a sound coremap are those that the check takes for such. -/
theorem Sound.isResident_iff {d : Descriptor} (hm : m.Sound) (hd : m.frames[i]? = some d) :
    d.isResident = true ↔ ∃ page, m.HasRole i (.resident page) := by
  have hu := use?_of_getElem? hd
  obtain ⟨r, hr, huse⟩ := hm.hasRole hu
  have hsame : d.isResident = r.use.isResident := by
    rw [← huse]
    rfl
  rw [hsame]
  cases r with
  | free => exact ⟨nofun, fun ⟨_, hp⟩ => nomatch hr.unique hp⟩
  | kernel tail => exact ⟨nofun, fun ⟨_, hp⟩ => nomatch hr.unique hp⟩
  | resident page => exact ⟨fun _ => ⟨page, hr⟩, fun _ => rfl⟩
  | transit pinned page orphaned =>
      refine ⟨?_, fun ⟨_, hp⟩ => nomatch hr.unique hp⟩
      cases pinned <;> exact nofun

/-- The resident frames are those that verification looks for on the chain. -/
theorem Sound.isResident (hm : m.Sound) :
    m.IsResident i ↔ ∃ page, m.HasRole i (.resident page) := by
  constructor
  · rintro ⟨d, hd, hflags⟩
    exact (hm.isResident_iff hd).mp (Descriptor.isResident_iff.mpr hflags)
  · rintro ⟨page, hp⟩
    obtain ⟨d, hd, -⟩ := Option.map_eq_some_iff.mp hp
    exact ⟨d, hd, Descriptor.isResident_iff.mp ((hm.isResident_iff hd).mpr ⟨page, hp⟩)⟩

/-- Each descriptor agrees with its role. -/
theorem Sound.descriptorFlaw?_eq_none {d : Descriptor} (hm : m.Sound) (hd : m.frames[i]? = some d) :
    d.flaw? = none := by
  have hu := use?_of_getElem? hd
  obtain ⟨r, hr, huse⟩ := hm.hasRole hu
  cases r with
  | kernel tail =>
      have hlink := hm.link_of_loose hr nofun
      unfold link? at hlink
      rw [hd] at hlink
      obtain ⟨hprev, hnext⟩ := Prod.mk.inj (Option.some.inj hlink)
      have hkind : d.kind? = some .kernel := (congrArg Descriptor.kind? huse : d.use.kind? = _)
      unfold Descriptor.flaw?
      rw [hkind, hprev, hnext]
      rfl
  | free =>
      have hfields : d.use.flaw? = Descriptor.flaw? .free := congrArg Descriptor.flaw? huse
      have hkind : d.kind? = none := (congrArg Descriptor.kind? huse : d.use.kind? = _)
      unfold Descriptor.flaw? at hfields ⊢
      rw [hkind]
      have hkind' : d.use.kind? = none := hkind
      rw [hkind'] at hfields
      exact hfields
  | resident page =>
      have hkind : d.kind? = some .user := (congrArg Descriptor.kind? huse : d.use.kind? = _)
      have hpage : d.page = some page := (congrArg Descriptor.page huse : d.use.page = _)
      unfold Descriptor.flaw?
      rw [hkind, hpage]
      rfl
  | transit pinned page orphaned =>
      have hkind : d.kind? = some .user := (congrArg Descriptor.kind? huse : d.use.kind? = _)
      have hpage : d.page = some page := (congrArg Descriptor.page huse : d.use.page = _)
      unfold Descriptor.flaw?
      rw [hkind, hpage]
      rfl

theorem Exact.wellFormed (hm : m.Exact) : m.WellFormed := by
  obtain ⟨l, hl, hmem⟩ := hm.toSound.chain
  obtain ⟨hkernels, husers, hevictings⟩ := counters_iff.mp
    ⟨hm.counted.kernel, hm.counted.user, hm.counted.evicting⟩
  refine ⟨⟨l, hl.strung, fun i => (hmem i).trans hm.toSound.isResident.symm⟩, fun d hd => ?_,
    hkernels, husers, hevictings⟩
  obtain ⟨i, hi⟩ := Array.mem_iff_getElem?.mp hd
  exact Descriptor.flaw?_eq_none_iff.mp (hm.toSound.descriptorFlaw?_eq_none hi)

/-- **Verification accepts an exact coremap.** -/
theorem Exact.flaw?_eq_none (hm : m.Exact) : m.flaw? = none := flaw?_eq_none_iff.mpr hm.wellFormed

end PhysMem.Coremap
