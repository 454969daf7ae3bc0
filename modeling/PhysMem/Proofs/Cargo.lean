import PhysMem.Proofs.Hands
import PhysMem.Proofs.Roles

/-!
# Cargo — the frames that operations see through

A frame in transit belongs to one operation in flight: the eviction that took it off the chain, or
the page-in that claimed it. Whoever gives such a frame up meanwhile only orphans it. When the
operation is done with its cargo the frame is free, or resident unless it was orphaned.

* **`Task.cargo?`** is the frame that a stopped operation sees through.
* **`Hauls`** says what a piece does to the frames: nothing to those that other operations carry,
  and nothing of its own is left in transit unless it is the cargo of what comes next.
* **`resume_hauls`**, **`start_hauls`** — every piece does so.
-/

namespace PhysMem

/-- A frame in transit. -/
structure Cargo where
  frame : Nat
  /-- Being filled by a page-in, or else being evicted. -/
  pinned : Bool
  page : Page
  deriving DecidableEq, Repr

/-- The role of the frame. -/
def Cargo.role (c : Cargo) (orphaned : Bool) : FrameRole := .transit c.pinned c.page orphaned

/-- The frame is in transit as the cargo says, orphaned or not. -/
def Coremap.Carries (m : Coremap) (c : Cargo) (orphaned : Bool) : Prop :=
  m.HasRole c.frame (c.role orphaned)

theorem Coremap.Carries.unique {m : Coremap} {c d : Cargo} {o o' : Bool} (h : m.Carries c o)
    (h' : m.Carries d o') (hframe : d.frame = c.frame) : d = c ∧ o' = o := by
  unfold Carries at h'
  rw [hframe] at h'
  have hrole := h'.unique h
  unfold Cargo.role at hrole
  injection hrole with hpinned hpage horphaned
  refine ⟨?_, horphaned⟩
  cases c
  cases d
  simp_all

/-- Whether the operation claims frames for the page at once. -/
def Operation.Grants (op : Operation) (page : Page) : Prop :=
  ∃ kind count, op = .allocate kind count (some page)

namespace Task

/-- The frame that a filling has pinned; a restore pins none. -/
def fillCargo? (f : Filling) : Option Cargo := f.page.map fun page => ⟨f.frame, true, page⟩

/-- The frame that the stopped operation sees through. -/
def cargo? : Task → Option Cargo
  | .evictMapping e | .evictWriting e _ | .evictTelling e => some ⟨e.frame, false, e.page⟩
  | .fillMapping f | .fillReading f _ | .fillScrubbing f _ => fillCargo? f
  | .slotReading .. | .slotWriting .. => none

/-- The frame that what comes next sees through. -/
def Next.cargo? : Next → Option Cargo
  | .callOut task => task.cargo?
  | .reply _ => none

/-- What a piece does to frames, if `own` is the cargo of the operation and `grants` the pages that
it allocates frames for. -/
structure Hauls (own : Option Cargo) (grants : Page → Prop) (m : Memory) (p : Piece) : Prop where
  sound : p.memory.coremap.Sound
  table : m.coremap.SameTable p.memory.coremap
  /-- Cargo of others stays in transit, and orphaned if it was. -/
  kept : ∀ c o, m.coremap.Carries c o → own ≠ some c →
    ∃ o', p.memory.coremap.Carries c o' ∧ (o = true → o' = true)
  /-- What is in transit afterwards is the cargo of what comes next, or was in transit and is none
  of the operation's. -/
  only : ∀ c o, p.memory.coremap.Carries c o → p.next.cargo? = some c ∨
    own ≠ some c ∧ ∃ o', m.coremap.Carries c o' ∧ (o' = true → o = true)
  /-- The cargo of what comes next is the operation's, as it was, or it is new: it was not in transit
  for anyone else, and what is evicted was resident. -/
  next : ∀ c, p.next.cargo? = some c →
    own = some c ∧ (∀ o, m.coremap.Carries c o → p.memory.coremap.Carries c o) ∨
      own ≠ some c ∧ p.memory.coremap.Carries c false ∧
        (∀ d o, m.coremap.Carries d o → d.frame = c.frame → own = some d) ∧
        (c.pinned = true ∨ m.coremap.HasRole c.frame (.resident c.page))
  /-- A resident frame was resident, or was the operation's cargo and not orphaned, or was claimed
  for an owner at once. -/
  resident : ∀ i page, p.memory.coremap.HasRole i (.resident page) →
    m.coremap.HasRole i (.resident page) ∨
      (∃ c, own = some c ∧ c.page = page ∧ m.coremap.Carries c false ∧
        (c.pinned = true → ∃ a, p.next = .reply (.address (.ok a)))) ∨ grants page
  /-- A page-in that succeeds had not lost its frame. -/
  answers : ∀ c a, own = some c → c.pinned = true → p.next = .reply (.address (.ok a)) →
    m.coremap.Carries c false
  /-- A page-in that is told so had lost its frame. -/
  lost : ∀ c, own = some c → c.pinned = true →
    p.next = .reply (.address (.error .ownerReleased)) → ¬ m.coremap.Carries c false
  /-- A filling knows the address of its frame. -/
  placed : ∀ f, p.next = .callOut (.fillMapping f) →
    p.memory.coremap.indexOf? f.address = some f.frame

namespace Hauls

variable {own : Option Cargo} {grants : Page → Prop} {m n : Memory} {p : Piece}

/-- A piece that changes no use of a frame and goes on with the same cargo. -/
theorem goesOn {t : Task} (hsound : p.memory.coremap.Sound)
    (halike : m.coremap.Alike p.memory.coremap) (hn : p.next = .callOut t) (hcargo : t.cargo? = own)
    (hmap : ∀ f, t = .fillMapping f → p.memory.coremap.indexOf? f.address = some f.frame) :
    Hauls own grants m p := by
  have hnext : p.next.cargo? = own := by
    rw [hn]
    exact hcargo
  refine ⟨hsound, halike.toSameTable, ?_, ?_, ?_, ?_, ?_, ?_, ?_⟩
  · intro c o hc _
    exact ⟨o, halike.role.mpr hc, id⟩
  · intro c o hc
    by_cases hown : own = some c
    · exact Or.inl (hnext.trans hown)
    · exact Or.inr ⟨hown, o, halike.role.mp hc, id⟩
  · intro c hc
    exact Or.inl ⟨hnext.symm.trans hc, fun o ho => halike.role.mpr ho⟩
  · intro i page hr
    exact Or.inl (halike.role.mp hr)
  · intro c a _ _ hreply
    rw [hn] at hreply
    exact nomatch hreply
  · intro c _ _ hreply
    rw [hn] at hreply
    exact nomatch hreply
  · intro f hf
    rw [hn] at hf
    exact hmap f (Next.callOut.inj hf)

/-- A piece that gives frames up at most, with no cargo before or after. -/
theorem givesUp (hsound : p.memory.coremap.Sound) (htable : m.coremap.SameTable p.memory.coremap)
    (hrole : ∀ i r, m.coremap.HasRole i r →
      p.memory.coremap.HasRole i r ∨ p.memory.coremap.HasRole i r.givenUp)
    (hm : m.coremap.Sound) (hn : ∃ r, p.next = .reply r) : Hauls none grants m p := by
  obtain ⟨reply, hn⟩ := hn
  -- every frame had a role before
  have before : ∀ i r, p.memory.coremap.HasRole i r →
      ∃ r₀, m.coremap.HasRole i r₀ ∧ (r = r₀ ∨ r = r₀.givenUp) := by
    intro i r hr
    have hlt : i < m.coremap.frames.size := by
      have := Coremap.lt_size_of_use? hr
      rw [htable.size] at this
      exact this
    obtain ⟨r₀, hr₀, -⟩ :=
      hm.hasRole (Coremap.use?_of_getElem? (Array.getElem?_eq_getElem hlt))
    exact ⟨r₀, hr₀, (hrole i r₀ hr₀).imp hr.unique hr.unique⟩
  refine ⟨hsound, htable, ?_, ?_, ?_, ?_, nofun, nofun, ?_⟩
  · intro c o hc _
    rcases hrole _ _ hc with hr | hr
    · exact ⟨o, hr, id⟩
    · exact ⟨true, hr, fun _ => rfl⟩
  · intro c o hc
    obtain ⟨r₀, hr₀, he | he⟩ := before _ _ hc
    · subst he
      exact Or.inr ⟨nofun, o, hr₀, id⟩
    · cases r₀ with
      | transit pinned page orphaned =>
          unfold Cargo.role FrameRole.givenUp at he
          injection he with hpinned hpage horphaned
          refine Or.inr ⟨nofun, orphaned, ?_, fun _ => horphaned⟩
          unfold Coremap.Carries Cargo.role
          rw [hpinned, hpage]
          exact hr₀
      | free => exact nomatch he
      | kernel tail => exact nomatch he
      | resident page => exact nomatch he
  · intro c hc
    rw [hn] at hc
    exact nomatch hc
  · intro i page hr
    obtain ⟨r₀, hr₀, rfl | he⟩ := before _ _ hr
    · exact Or.inl hr₀
    · cases r₀ <;> exact nomatch he
  · intro f hf
    rw [hn] at hf
    exact nomatch hf

/-- A piece that is over and changes no use of a frame. -/
theorem ends (hm : m.coremap.Sound) (hsound : p.memory.coremap.Sound)
    (halike : m.coremap.Alike p.memory.coremap) (hn : ∃ r, p.next = .reply r) :
    Hauls none grants m p :=
  givesUp hsound halike.toSameTable (fun _ _ hr => Or.inl (halike.role.mpr hr)) hm hn

/-- The operation is done with its cargo, and the piece goes on without it. -/
theorem letsGo {c : Cargo} {o : Bool} {v : FrameRole} (hc : m.coremap.Carries c o)
    (hput : m.coremap.Puts c.frame v.use n.coremap)
    (hv : v = .free ∨ v = .resident c.page ∧ o = false) (h : Hauls none grants n p)
    (hpins : ∀ d, p.next.cargo? = some d → c.pinned = false ∧ d.pinned = true)
    (hends : c.pinned = true → v = .resident c.page → ∃ a, p.next = .reply (.address (.ok a)))
    (hanswers : ∀ a, c.pinned = true → p.next = .reply (.address (.ok a)) → o = false)
    (hlost : c.pinned = true → p.next = .reply (.address (.error .ownerReleased)) → o = true) :
    Hauls (some c) grants m p := by
  have hself := hput.role_self
  -- the frame is in transit no more, so whatever still is was so before
  have before : ∀ d o', n.coremap.Carries d o' → d ≠ c ∧ m.coremap.Carries d o' := by
    intro d o' hd
    have hframe : d.frame ≠ c.frame := by
      intro he
      unfold Coremap.Carries at hd
      rw [he] at hd
      have hrole := hd.unique hself
      rcases hv with rfl | ⟨rfl, -⟩
      · exact nomatch hrole
      · exact nomatch hrole
    exact ⟨fun he => hframe (congrArg Cargo.frame he), (hput.role_other hframe).mp hd⟩
  refine ⟨h.sound, hput.toSameTable.trans h.table, ?_, ?_, ?_, ?_, ?_, ?_, h.placed⟩
  · intro d o' hd hne
    have hframe : d.frame ≠ c.frame := by
      intro he
      exact hne (congrArg some (hd.unique hc he.symm).1)
    exact h.kept d o' ((hput.role_other hframe).mpr hd) nofun
  · intro d o' hd
    rcases h.only d o' hd with hn | ⟨-, o₁, hd₁, himp⟩
    · exact Or.inl hn
    · obtain ⟨hne, hd₀⟩ := before d o₁ hd₁
      exact Or.inr ⟨fun he => hne (Option.some.inj he).symm, o₁, hd₀, himp⟩
  · intro d hd
    rcases h.next d hd with ⟨hown, -⟩ | ⟨-, hnew, hother, -⟩
    · exact nomatch hown
    · obtain ⟨hevicted, hpinned⟩ := hpins d hd
      refine Or.inr ⟨?_, hnew, fun d' o' hd' hframe => ?_, Or.inl hpinned⟩
      · rintro ⟨⟩
        exact nomatch hevicted.symm.trans hpinned
      · by_cases he : d'.frame = c.frame
        · rw [(hc.unique hd' he).1]
        · exact nomatch hother d' o' ((hput.role_other he).mpr hd') hframe
  · intro i page hr
    rcases h.resident i page hr with hr' | ⟨d, hown, -⟩ | hg
    · by_cases he : i = c.frame
      · subst he
        have hrole := hself.unique hr'
        rcases hv with rfl | ⟨rfl, rfl⟩
        · exact nomatch hrole
        · injection hrole with hpage
          exact Or.inr (Or.inl ⟨c, rfl, hpage, hc, fun hp => hends hp rfl⟩)
      · exact Or.inl ((hput.role_other he).mp hr')
    · exact nomatch hown
    · exact Or.inr (Or.inr hg)
  · rintro d a ⟨⟩ hp hn
    rw [← hanswers a hp hn]
    exact hc
  · rintro d ⟨⟩ hp hn hfalse
    rw [hlost hp hn] at hc
    exact nomatch (hc.unique hfalse rfl).2

/-- A piece whose frames were all used alike before a step. -/
theorem of_alike (halike : m.coremap.Alike n.coremap) (h : Hauls own grants n p) :
    Hauls own grants m p := by
  have hcarry : ∀ c o, n.coremap.Carries c o ↔ m.coremap.Carries c o :=
    fun c o => halike.role
  refine ⟨h.sound, halike.toSameTable.trans h.table, ?_, ?_, ?_, ?_, ?_, ?_, h.placed⟩
  · intro c o hc
    exact h.kept c o ((hcarry c o).mpr hc)
  · intro c o hc
    refine (h.only c o hc).imp id ?_
    rintro ⟨hne, o', hc', himp⟩
    exact ⟨hne, o', (hcarry c o').mp hc', himp⟩
  · intro c hc
    rcases h.next c hc with ⟨hown, hsame⟩ | ⟨hne, hnew, hother, hkind⟩
    · exact Or.inl ⟨hown, fun o ho => hsame o ((hcarry c o).mpr ho)⟩
    · exact Or.inr ⟨hne, hnew, fun d o hd => hother d o ((hcarry d o).mpr hd),
        hkind.imp id halike.role.mp⟩
  · intro i page hr
    rcases h.resident i page hr with hr' | ⟨c, hown, hpage, hc, hends⟩ | hg
    · exact Or.inl (halike.role.mp hr')
    · exact Or.inr (Or.inl ⟨c, hown, hpage, (hcarry c false).mp hc, hends⟩)
    · exact Or.inr (Or.inr hg)
  · intro c a hown hp hn
    exact (hcarry c false).mp (h.answers c a hown hp hn)
  · intro c hown hp hn hc
    exact h.lost c hown hp hn ((hcarry c false).mpr hc)

/-- Free frames are claimed for an owner at once. -/
theorem claims (hsound : p.memory.coremap.Sound) (htable : m.coremap.SameTable p.memory.coremap)
    (huse : ∀ x, p.memory.coremap.use? x = m.coremap.use? x ∨ m.coremap.HasRole x .free ∧
      ((∃ tail, p.memory.coremap.HasRole x (.kernel tail)) ∨
        ∃ page, grants page ∧ p.memory.coremap.HasRole x (.resident page)))
    (hn : ∃ r, p.next = .reply r) : Hauls none grants m p := by
  obtain ⟨reply, hn⟩ := hn
  refine ⟨hsound, htable, ?_, ?_, ?_, ?_, nofun, nofun, ?_⟩
  · intro c o hc _
    rcases huse c.frame with hsame | ⟨hfree, -⟩
    · exact ⟨o, hsame.trans hc, id⟩
    · exact nomatch hfree.unique hc
  · intro c o hc
    rcases huse c.frame with hsame | ⟨-, ⟨tail, hk⟩ | ⟨page, -, hr⟩⟩
    · exact Or.inr ⟨nofun, o, hsame.symm.trans hc, id⟩
    · exact nomatch hk.unique hc
    · exact nomatch hr.unique hc
  · intro c hc
    rw [hn] at hc
    exact nomatch hc
  · intro i page hr
    rcases huse i with hsame | ⟨-, ⟨tail, hk⟩ | ⟨page', hg, hr'⟩⟩
    · exact Or.inl (hsame.symm.trans hr)
    · exact nomatch hk.unique hr
    · have hpage := hr'.unique hr
      injection hpage with hpage
      subst hpage
      exact Or.inr (Or.inr hg)
  · intro f hf
    rw [hn] at hf
    exact nomatch hf

/-- A frame that was at rest becomes the cargo of what comes next. -/
theorem takes {c : Cargo} {r : FrameRole} (hsound : p.memory.coremap.Sound)
    (hr : m.coremap.HasRole c.frame r) (hrest : ∀ pinned page o, r ≠ .transit pinned page o)
    (hkind : c.pinned = true ∨ r = .resident c.page)
    (hput : m.coremap.Puts c.frame (c.role false).use p.memory.coremap)
    (hn : p.next.cargo? = some c)
    (hplaced : ∀ f, p.next = .callOut (.fillMapping f) →
      p.memory.coremap.indexOf? f.address = some f.frame) : Hauls none grants m p := by
  have hframe : ∀ d o, m.coremap.Carries d o → d.frame ≠ c.frame := by
    intro d o hd he
    unfold Coremap.Carries at hd
    rw [he] at hd
    exact hrest _ _ _ (hr.unique hd)
  refine ⟨hsound, hput.toSameTable, ?_, ?_, ?_, ?_, nofun, nofun, hplaced⟩
  · intro d o hd _
    exact ⟨o, (hput.role_other (hframe d o hd)).mpr hd, id⟩
  · intro d o hd
    by_cases he : d.frame = c.frame
    · have hcarry : p.memory.coremap.Carries c false := hput.role_self
      rw [(hcarry.unique hd he).1]
      exact Or.inl hn
    · exact Or.inr ⟨nofun, o, (hput.role_other he).mp hd, id⟩
  · intro d hd
    rw [hn] at hd
    cases hd
    refine Or.inr ⟨nofun, hput.role_self, fun d o hd he => ?_, ?_⟩
    · exact absurd he (hframe d o hd)
    · refine hkind.imp id ?_
      rintro rfl
      exact hr
  · intro i page hres
    by_cases he : i = c.frame
    · subst he
      exact nomatch hput.role_self.unique hres
    · exact Or.inl ((hput.role_other he).mp hres)

end Hauls

variable {m : Memory} {p : Piece} {notices : List Notice} {op : Operation} {o : Bool}

/-! ## Filling a frame from a slot -/

theorem fillCargo?_of_page {f : Filling} {page : Page} (h : f.page = some page) :
    fillCargo? f = some ⟨f.frame, true, page⟩ := by
  unfold fillCargo?
  rw [h]
  rfl

theorem fillCargo?_of_none {f : Filling} (h : f.page = none) : fillCargo? f = none := by
  unfold fillCargo?
  rw [h]
  rfl

/-- The frame of a page-in is in transit. -/
def Aboard (m : Memory) (own : Option Cargo) : Prop :=
  ∀ c, own = some c → ∃ o, m.coremap.Carries c o

theorem filled_hauls {f : Filling} (hm : m.coremap.Sound) (hc : Aboard m (fillCargo? f))
    (h : filled m notices f = .ok p) : Hauls (fillCargo? f) op.Grants m p := by
  cases filled_cases h with
  | unreleased hpage | restored hpage =>
      rw [fillCargo?_of_none hpage]
      exact .ends hm hm (.refl _) ⟨_, rfl⟩
  | broughtBack page onChain slots coremap hpage _ hunpin =>
      rw [fillCargo?_of_page hpage] at hc ⊢
      obtain ⟨o, hcarry⟩ := hc _ rfl
      obtain ⟨hsound, page', orphaned, hrole, rfl, hput⟩ := hm.unpin hunpin
      have hsame := hrole.unique hcarry
      unfold Cargo.role at hsame
      injection hsame with _ hpage horphaned
      subst hpage horphaned
      refine .letsGo (n := { m with coremap }) hcarry hput ?_
        (.ends (m := { m with coremap }) hsound hsound (.refl _) ⟨_, rfl⟩) nofun ?_ ?_ ?_
      · cases orphaned with
        | true => exact Or.inl rfl
        | false => exact Or.inr ⟨rfl, rfl⟩
      · rintro - hv
        cases orphaned with
        | true => exact nomatch hv
        | false => exact ⟨_, rfl⟩
      · rintro a - hn
        cases orphaned with
        | true => exact nomatch hn
        | false => rfl
      · rintro - hn
        cases orphaned with
        | true => rfl
        | false => exact nomatch hn

theorem fillFailed_hauls {f : Filling} {e : SwapError} (hm : m.coremap.Sound)
    (hc : Aboard m (fillCargo? f)) (h : fillFailed m f e = .ok p) :
    Hauls (fillCargo? f) op.Grants m p := by
  cases fillFailed_cases h with
  | restore hpage =>
      rw [fillCargo?_of_none hpage]
      exact .ends hm hm (.refl _) ⟨_, rfl⟩
  | pageIn page coremap slots hpage hdiscard =>
      rw [fillCargo?_of_page hpage] at hc ⊢
      obtain ⟨o, hcarry⟩ := hc _ rfl
      obtain ⟨hsound, -, -, -, hput⟩ := hm.discardPinned hdiscard
      exact .letsGo (n := { m with coremap }) hcarry hput (Or.inl rfl)
        (.ends (m := { m with coremap }) hsound hsound (.refl _) ⟨_, rfl⟩) nofun nofun nofun nofun

/-- The frame of a filling that goes on stays cargo, or it is let go of when the filling is over. -/
theorem filling_hauls {f : Filling} (hm : m.coremap.Sound) (hc : Aboard m (fillCargo? f))
    (h : FillingCases m f p) : Hauls (fillCargo? f) op.Grants m p := by
  cases h with
  | full device ram h =>
      exact .of_alike (n := m.putSectors device ram) (.refl _) (filled_hauls hm hc h)
  | unread device ram h =>
      exact .of_alike (n := m.putSectors device ram) (.refl _) (fillFailed_hauls hm hc h)
  | reading | scrubbing => exact .goesOn hm (.refl _) rfl rfl nofun

/-! ## Finding room -/

theorem unmet_hauls {e : FrameError} {need : Need} (hm : m.coremap.Sound)
    (h : unmet m notices e need = .ok p) : Hauls none op.Grants m p := by
  cases unmet_cases h with
  | allocate | pageIn => exact .ends hm hm (.refl _) ⟨_, rfl⟩

/-- An allocation asks for one frame if it is for a page, and that page is the operation's. -/
theorem grants_of_need {owner : FrameOwner} {count : Nat} {seen : Bool}
    (hop : NeedServes op (some (.allocate owner count seen))) :
    (owner = .kernel ∨ count = 1) ∧ ∀ page, owner = .user page → op.Grants page := by
  cases seen with
  | true =>
      obtain ⟨-, rfl⟩ := hop
      exact ⟨Or.inl rfl, nofun⟩
  | false =>
      obtain ⟨kind, page, rfl, hreq⟩ := hop
      unfold requestOwner at hreq
      split at hreq
      · exact nomatch hreq
      · split at hreq
        · cases hreq
          exact ⟨Or.inl rfl, nofun⟩
        · exact nomatch hreq
        · exact nomatch hreq
        · split at hreq
          · cases hreq
            refine ⟨Or.inr ‹_›, ?_⟩
            rintro _ ⟨⟩
            exact ⟨_, _, rfl⟩
          · exact nomatch hreq

/-- A need that frames are claimed for is met by them. -/
theorem met_hauls {coremap : Coremap} {need : Need} {i : Nat} (hm : m.coremap.Sound)
    (hop : NeedServes op (some need)) (hclaim : claimFor m.coremap need = .ok (some i, coremap))
    (h : met { m with coremap } notices i need = .ok p) : Hauls none op.Grants m p := by
  -- frames that are answered at once are the kernel's, or a page's that the operation is for
  have allocates : ∀ {owner count seen}, need = .allocate owner count seen →
      p.memory.coremap = coremap → (∃ r, p.next = .reply r) → Hauls none op.Grants m p := by
    rintro owner count seen rfl rfl hn
    obtain ⟨hcount, hgrants⟩ := grants_of_need hop
    obtain ⟨hsound, htable, huse⟩ := hm.claim hcount hclaim
    refine .claims hsound htable (fun x => (huse x).imp id ?_) hn
    rintro ⟨hfree, hk | ⟨page, rfl, hr⟩⟩
    · exact ⟨hfree, Or.inl hk⟩
    · exact ⟨hfree, Or.inr ⟨page, hgrants page rfl, hr⟩⟩
  cases met_cases h with
  | allocated | seen => exact allocates rfl rfl ⟨_, rfl⟩
  | pageIn haddress =>
      have hpin : m.coremap.claimPinned _ = .ok (some i, coremap) := hclaim
      obtain ⟨hsound, ⟨hnone, -⟩ | ⟨i', hi, hfree, hput⟩⟩ := hm.claimPinned hpin
      · exact nomatch hnone
      · cases hi
        refine .takes (c := ⟨i, true, _⟩) hsound hfree nofun (Or.inl rfl) hput rfl ?_
        rintro f ⟨⟩
        exact Coremap.indexOf?_of_addressOf haddress

/-- A claim that finds no frames changes no use. -/
theorem claimFor_none {coremap : Coremap} {need : Need} (hm : m.coremap.Sound)
    (hop : NeedServes op (some need)) (hclaim : claimFor m.coremap need = .ok (none, coremap)) :
    coremap.Sound ∧ m.coremap.Alike coremap := by
  cases need with
  | allocate owner count seen =>
      refine ⟨(hm.claim (grants_of_need hop).1 hclaim).1, ?_⟩
      rcases Coremap.claim_ok hclaim with ⟨-, halike⟩ | ⟨_, _, hsome, -⟩
      · exact halike
      · exact nomatch hsome
  | pageIn page slot =>
      have hpin : m.coremap.claimPinned page = .ok (none, coremap) := hclaim
      obtain ⟨hsound, ⟨-, halike⟩ | ⟨i, hsome, -⟩⟩ := hm.claimPinned hpin
      · exact ⟨hsound, halike⟩
      · exact nomatch hsome

theorem evictionEnded_hauls {need : Option Need} {result : Except EvictError (Nat × Nat)}
    (hm : m.coremap.Sound) (hop : NeedServes op need)
    (h : evictionEnded m notices need result = .ok p) : Hauls none op.Grants m p := by
  cases evictionEnded_cases h with
  | ended => exact .ends hm hm (.refl _) ⟨_, rfl⟩
  | noVictim h | failed h => exact unmet_hauls hm h
  | room coremap hclaim h => exact met_hauls hm hop hclaim h
  | noRoom coremap hclaim h =>
      obtain ⟨hsound, halike⟩ := claimFor_none hm hop hclaim
      exact .of_alike (n := { m with coremap }) halike (unmet_hauls hsound h)

/-! ## Evictions -/

/-- What comes behind an eviction is cargo of a page-in, if it is cargo. -/
theorem Ended.pins {need : Option Need} {n : Next} (h : Ended need n) {c : Cargo}
    (hc : n.cargo? = some c) : c.pinned = true := by
  cases n with
  | reply r => exact nomatch hc
  | callOut t =>
      obtain ⟨f, rfl⟩ := h.fills
      obtain ⟨page, -, rfl⟩ := Option.map_eq_some_iff.mp hc
      rfl

/-- The frame of an eviction given up is resident again, or free if it was orphaned. -/
theorem putBack_hauls {c : Cargo} {n : Memory} {need : Option Need} (hm : m.coremap.Sound)
    (hpinned : c.pinned = false) (hc : Aboard m (some c))
    (hback : putBack m c.frame = .ok (n, notices)) (hend : Ended need p.next)
    (h : n.coremap.Sound → Hauls none op.Grants n p) : Hauls (some c) op.Grants m p := by
  obtain ⟨onChain, coremap, habort, rfl, -⟩ := putBack_eq_ok hback
  obtain ⟨o, hcarry⟩ := hc _ rfl
  obtain ⟨hsound, page, orphaned, hrole, -, hput⟩ := hm.abortEviction habort
  have hsame := hrole.unique hcarry
  unfold Cargo.role at hsame
  injection hsame with _ hpage horphaned
  subst hpage horphaned
  refine .letsGo (n := { m with coremap }) hcarry hput ?_ (h hsound)
    (fun d hd => ⟨hpinned, hend.pins hd⟩) ?_ ?_ ?_
  · cases orphaned with
    | true => exact Or.inl rfl
    | false => exact Or.inr ⟨rfl, rfl⟩
  · rw [hpinned]
    exact nofun
  · rw [hpinned]
    exact nofun
  · rw [hpinned]
    exact nofun

/-- The frame of an eviction that is done is free. -/
theorem finishEviction_hauls {c : Cargo} {coremap : Coremap} {n : Memory} {orphaned : Bool}
    {need : Option Need} (hm : m.coremap.Sound) (hpinned : c.pinned = false)
    (hc : Aboard m (some c))
    (hfinish : m.coremap.finishEviction c.frame = .ok (orphaned, coremap))
    (hm' : n.coremap = coremap) (hend : Ended need p.next)
    (h : n.coremap.Sound → Hauls none op.Grants n p) :
    Hauls (some c) op.Grants m p := by
  obtain ⟨o, hcarry⟩ := hc _ rfl
  obtain ⟨hsound, -, -, hput⟩ := hm.finishEviction hfinish
  rw [← hm'] at hsound hput
  refine .letsGo (n := n) hcarry hput (Or.inl rfl) (h hsound)
    (fun d hd => ⟨hpinned, hend.pins hd⟩) nofun ?_ ?_
  · rw [hpinned]
    exact nofun
  · rw [hpinned]
    exact nofun

/-- The frame that an eviction sees through. -/
def evictCargo (e : Eviction) : Cargo := ⟨e.frame, false, e.page⟩

theorem writeFailed_hauls {e : Eviction} {cause : SwapError} (hm : m.coremap.Sound)
    (hop : NeedServes op e.need) (hc : Aboard m (some (evictCargo e)))
    (h : writeFailed m e cause = .ok p) : Hauls (some (evictCargo e)) op.Grants m p := by
  obtain ⟨owned, slots, n, notices, -, hback, h⟩ := writeFailed_eq_ok h
  exact .of_alike (n := m.putSlots slots) (.refl _)
    (putBack_hauls (c := evictCargo e) hm rfl hc hback (evictionEnded_ended h) fun hsound =>
      evictionEnded_hauls hsound hop h)

theorem written_hauls {e : Eviction} (hm : m.coremap.Sound) (hop : NeedServes op e.need)
    (hc : Aboard m (some (evictCargo e))) (h : written m e = .ok p) :
    Hauls (some (evictCargo e)) op.Grants m p := by
  cases written_cases h with
  | freed slots slots' coremap _ _ _ hfinish _ h =>
      exact finishEviction_hauls hm rfl hc hfinish rfl (evictionEnded_ended h) fun hsound =>
        evictionEnded_hauls hsound hop h
  | told => exact .goesOn hm (.refl _) rfl rfl nofun

theorem toldPager_hauls {e : Eviction} (hm : m.coremap.Sound) (hop : NeedServes op e.need)
    (hc : Aboard m (some (evictCargo e))) (h : toldPager m e = .ok p) :
    Hauls (some (evictCargo e)) op.Grants m p := by
  cases toldPager_cases h with
  | orphaned _ _ hfinish _ h | kept _ hfinish h =>
      exact finishEviction_hauls hm rfl hc hfinish rfl (evictionEnded_ended h) fun hsound =>
        evictionEnded_hauls hsound hop h

/-- An eviction that goes on leaves the cargo of others alone. -/
theorem evicting_hauls {e : Eviction} (hm : m.coremap.Sound) (hop : NeedServes op e.need)
    (hc : Aboard m (some (evictCargo e))) (h : EvictingCases m e p) :
    Hauls (some (evictCargo e)) op.Grants m p := by
  cases h with
  | failed device h =>
      exact .of_alike (n := m.putDevice device) (.refl _) (writeFailed_hauls hm hop hc h)
  | writing => exact .goesOn hm (.refl _) rfl rfl nofun
  | written device h =>
      exact .of_alike (n := m.putDevice device) (.refl _) (written_hauls hm hop hc h)

/-! ## Going on -/

/-- **Going on leaves the cargo of others alone**, and ends with the operation's own or without. -/
theorem resume_hauls {held : Bool} {t : Task} (hm : m.coremap.Sound) (hop : t.Serves op)
    (hc : Aboard m t.cargo?) (h : resume held m t = .ok p) : Hauls t.cargo? op.Grants m p := by
  cases t with
  | evictMapping e => exact evicting_hauls hm hop hc (.of_mapping h)
  | evictWriting e i => exact evicting_hauls hm hop hc (.of_writing h)
  | evictTelling e => exact toldPager_hauls hm hop hc h
  | fillMapping f => exact filling_hauls hm hc (.of_mapping h)
  | fillReading f i => exact filling_hauls hm hc (.of_reading h)
  | fillScrubbing f i => exact filling_hauls hm hc (.of_scrubbing h)
  | slotReading slot buffer i => exact hop.elim
  | slotWriting slot data i => exact hop.elim

/-! ## Starting -/

/-- The victim of an eviction comes off the chain. -/
theorem evict_hauls {need : Option Need} (hm : m.coremap.Sound) (hop : NeedServes op need)
    (h : evict m need = .ok p) : Hauls none op.Grants m p := by
  cases evict_cases h with
  | noVictim _ h => exact evictionEnded_hauls hm hop h
  | noSlot coremap slots n hdetach _ _ hback h =>
      -- without a slot the victim goes back at once
      obtain ⟨hsound, hrole, hput⟩ := hm.detachOldest hdetach
      obtain ⟨onChain, coremap', habort, rfl, -⟩ := putBack_eq_ok hback
      obtain ⟨hsound', page', orphaned, hrole', -, hput'⟩ := hsound.abortEviction habort
      have hsame := hrole'.unique hput.role_self
      injection hsame with _ hpage horphaned
      subst hpage horphaned
      have halike : m.coremap.Alike coremap' := by
        have hback := hput.trans hput'
        refine ⟨hback.toSameTable, fun x => ?_⟩
        rw [hback.use]
        split
        · next hx =>
            subst hx
            exact hrole.symm
        · rfl
      have hrest := evictionEnded_hauls (m := { m with coremap := coremap' }.putSlots slots)
        hsound' hop h
      exact .of_alike halike hrest
  | reserved coremap slots hdetach =>
      obtain ⟨hsound, hrole, hput⟩ := hm.detachOldest hdetach
      exact .takes (c := ⟨_, false, _⟩) hsound hrole nofun (Or.inr rfl) hput rfl nofun

theorem provide_hauls {need : Need} (hm : m.coremap.Sound) (hop : NeedServes op (some need))
    (h : provide m need = .ok p) : Hauls none op.Grants m p := by
  cases provide_cases h with
  | tooFew _ h => exact unmet_hauls hm h
  | room coremap _ hclaim h => exact met_hauls hm hop hclaim h
  | noRoom coremap _ hclaim h =>
      obtain ⟨hsound, halike⟩ := claimFor_none hm hop hclaim
      exact .of_alike (n := { m with coremap }) halike (evict_hauls hsound hop h)

theorem free_hauls {address : Nat} (hm : m.coremap.Sound) (h : free m address = .ok p) :
    Hauls none op.Grants m p := by
  cases free_cases h with
  | noFrame => exact .ends hm hm (.refl _) ⟨_, rfl⟩
  | refused _ _ hrelease | freed _ _ hrelease | deferred _ _ hrelease =>
      obtain ⟨hsound, hrole⟩ := hm.release hrelease
      exact .givesUp hsound (Coremap.release_table hrelease) hrole hm ⟨_, rfl⟩

/-- A teardown gives up the frames of its address space and no others. -/
theorem tearDown_hauls {space : Nat} (hm : m.coremap.Sound) (h : tearDown m space = .ok p) :
    Hauls none op.Grants m p ∧
      ∀ i r, m.coremap.HasRole i r → p.memory.coremap.HasRole i (Coremap.roleAfter space r) := by
  obtain ⟨frames, coremap, cleared, slots, hframes, -, rfl⟩ := tearDown_eq_ok h
  obtain ⟨hsound, hrole⟩ := hm.releaseSpace hframes
  refine ⟨.givesUp hsound (Coremap.releaseSpace_ok hframes).1 (fun i r hr => ?_) hm ⟨_, rfl⟩,
    hrole⟩
  have hafter := hrole i r hr
  unfold Coremap.roleAfter at hafter
  split at hafter
  · exact Or.inr hafter
  · exact Or.inl hafter

/-- **Starting leaves all cargo alone**, and what was cargo of nobody may become the operation's. -/
theorem start_hauls {held : Bool} (hm : m.coremap.Sound) (hop : op.isManaged = true)
    (h : start held m op = .ok p) : Hauls none op.Grants m p := by
  cases op with
  | allocate kind count page =>
      cases allocate_cases h with
      | refused => exact .ends hm hm (.refl _) ⟨_, rfl⟩
      | provided hrequest h => exact provide_hauls hm (needServes_request hrequest) h
  | allocateSeen count =>
      cases allocate_cases h with
      | refused => exact .ends hm hm (.refl _) ⟨_, rfl⟩
      | provided hrequest h => exact provide_hauls hm (needServes_seen hrequest) h
  | evict =>
      have hserves : NeedServes .evict none := rfl
      exact evict_hauls hm hserves h
  | pageIn page slot =>
      cases pageIn_cases h with
      | refused => exact .ends hm hm (.refl _) ⟨_, rfl⟩
      | held slots _ h =>
          have hserves : NeedServes (.pageIn page slot) (some (.pageIn page slot)) := rfl
          exact .of_alike (n := m.putSlots slots) (.refl _) (provide_hauls hm hserves h)
  | restore slot address =>
      cases restore_cases h with
      | noFrame | noSlot => exact .ends hm hm (.refl _) ⟨_, rfl⟩
      | filling hindex =>
          refine .goesOn hm (.refl _) rfl rfl ?_
          rintro f ⟨⟩
          exact hindex
  | free address => exact free_hauls hm h
  | freeSeen seen =>
      cases freeSeen_cases h with
      | unseen => exact .ends hm hm (.refl _) ⟨_, rfl⟩
      | freed _ h => exact free_hauls hm h
  | tearDown space => exact (tearDown_hauls hm h).1
  | recordTlbSlot address slot =>
      cases recordTlbSlot_cases h with
      | noFrame => exact .ends hm hm (.refl _) ⟨_, rfl⟩
      | recorded _ _ hset =>
          exact .ends hm (hm.setTlbSlot hset) (Coremap.setTlbSlot_alike hset) ⟨_, rfl⟩
  | readSlot slot buffer => exact nomatch hop
  | writeSlot slot buffer => exact nomatch hop
  | scrubSlot slot => exact nomatch hop

end Task

end PhysMem
