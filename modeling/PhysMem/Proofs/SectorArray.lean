import PhysMem.Proofs.FlatDisk

/-!
# Sector arrays — a block over a disk in memory

A transfer has five conditions, two of which the drive looks at and three the block before it. What
a block answers follows from what has happened to it, and only from that: the first condition that
fails is the error, and a sector holds what was last written to it. Nothing else has to be known of
the block or its drive, so the history of successful requests is the whole specification.

* **`Request`** and **`run`** are sequences of transfers, with the switches of the drive turned in
  between.
* **`latest`**, **`failing`** and **`successes`** read a history, **`Layout.conditions`** are the five
  conditions in their order, and **`Layout.history`** is what will have happened.
* **`Agrees`** is a block that is as its history says. **`Agrees.perform`** is the step and
  **`Agrees.run`** the induction over the requests.
* **`block_is_an_array_of_sectors`** is the result, also for the bytes of the disk.
-/

namespace PhysMem

namespace Block

/-! ## Requests -/

/-- What is asked of a block: to move a sector to a buffer or from it, or that its drive fail all
transfers of a direction from now on, or no longer. -/
inductive Request where
  | transfer (direction : Direction) (sector : Nat) (buffer : Array UInt8)
  | fail (direction : Direction) (failing : Bool)
  deriving DecidableEq, Repr

/-- What is answered, with the buffer as it is afterwards. -/
structure Answer where
  result : Except BlockError Unit
  buffer : Array UInt8 := #[]
  deriving DecidableEq

/-- Does what is asked. -/
def perform (b : Block) : Request → Except Fault (Answer × Block)
  | .transfer .reads sector buffer => do
    let (result, buffer, b) ← b.read sector buffer
    return ({ result, buffer }, b)
  | .transfer .writes sector buffer => do
    let (result, b) ← b.write sector buffer
    return ({ result, buffer }, b)
  | .fail direction failing =>
    .ok ({ result := .ok () },
      { b with drive := b.drive.tell direction fun told => { told with failing } })

/-- Does what is asked, one request after the other. -/
def run (b : Block) : List Request → Except Fault (List Answer × Block)
  | [] => .ok ([], b)
  | request :: requests => do
    let (answer, b) ← b.perform request
    let (answers, b) ← b.run requests
    return (answer :: answers, b)

/-! ## Histories

A history lists the requests that succeeded, the last one first. -/

/-- What was last written to a sector, zeros if nothing was. -/
def latest : List Request → Nat → Array UInt8
  | [], _ => Sector.zero.toArray
  | .transfer .writes written buffer :: past, sector =>
    if written = sector then buffer else latest past sector
  | _ :: past, sector => latest past sector

/-- Whether a direction was last told to fail. -/
def failing : List Request → Direction → Bool
  | [], _ => false
  | .fail told failing :: past, direction =>
    if told = direction then failing else Block.failing past direction
  | _ :: past, direction => failing past direction

/-- How many transfers there were in a direction. -/
def successes : List Request → Direction → Nat
  | [], _ => 0
  | .transfer moved _ _ :: past, direction =>
    successes past direction + if moved = direction then 1 else 0
  | _ :: past, direction => successes past direction

/-- A block as it is made: its kind, its declared size, and the size of its disk. -/
structure Layout where
  kind : BlockKind
  name : String
  size : Nat
  disk : Nat

namespace Layout

/-- The block before anything happened. -/
def block (l : Layout) : Block where
  kind := l.kind
  name := l.name
  size := l.size
  drive := .blank l.disk

/-- The conditions of a transfer in the order they are looked at, each with the error if it fails. -/
def conditions (l : Layout) (past : List Request) (direction : Direction) (sector length : Nat) :
    List (Bool × BlockError) :=
  [(sector < l.size, .sectorOutOfBounds sector),
    (length = sectorSize, .bufferInvalid length),
    (direction = .writes → l.kind ≠ .foreign, .readOnly),
    (!failing past direction, direction.error),
    (sector < l.disk, .sectorOutOfBounds sector)]

/-- The error of the first condition that fails. -/
def refusal? (l : Layout) (past : List Request) : Request → Option BlockError
  | .transfer direction sector buffer =>
    ((l.conditions past direction sector buffer.size).find? (!·.1)).map Prod.snd
  | .fail _ _ => none

/-- What has happened after one request more. -/
def next (l : Layout) (past : List Request) (request : Request) : List Request :=
  if (l.refusal? past request).isSome then past else request :: past

/-- What has happened after some requests more. -/
def history (l : Layout) (past requests : List Request) : List Request :=
  requests.foldl l.next past

end Layout

/-! ## One transfer -/

variable {b b' : Block} {l : Layout} {past : List Request} {request : Request}
  {direction : Direction} {sector length : Nat} {buffer : Array UInt8} {e : BlockError}

/-- Why a transfer does not reach the drive. -/
def refused? (b : Block) (direction : Direction) (sector length : Nat) : Option BlockError :=
  match direction with
  | .reads => b.readRefusal? sector length
  | .writes => b.writeRefusal? sector length

theorem refused?_eq (b : Block) (direction : Direction) (sector length : Nat) :
    b.refused? direction sector length =
      if b.size ≤ sector then some (.sectorOutOfBounds sector)
      else if length ≠ sectorSize then some (.bufferInvalid length)
      else if direction = .writes ∧ b.kind = .foreign then some .readOnly
      else none := by
  cases direction with
  | reads => simp [refused?, readRefusal?]
  | writes =>
      simp only [refused?, writeRefusal?, readRefusal?, true_and]
      split <;> rename_i h <;> split at h <;> simp_all

theorem size_of_refused? (h : b.refused? direction sector length = none) :
    sector < b.size ∧ length = sectorSize := by
  rw [refused?_eq] at h
  split at h
  · exact nomatch h
  · next hsector =>
      split at h
      · exact nomatch h
      · next hlength => exact ⟨Nat.lt_of_not_le hsector, not_not.mp hlength⟩

/-- What the block refuses leaves it as it is. -/
theorem perform_refused (h : b.refused? direction sector buffer.size = some e) :
    b.perform (.transfer direction sector buffer) = .ok ({ result := .error e, buffer }, b) := by
  cases direction with
  | reads =>
      refine Fault.bind_eq_ok.mpr ⟨(.error e, buffer, b), ?_, rfl⟩
      rw [read, show b.readRefusal? sector buffer.size = some e from h]
  | writes =>
      refine Fault.bind_eq_ok.mpr ⟨(.error e, b), ?_, rfl⟩
      rw [write, show b.writeRefusal? sector buffer.size = some e from h]

/-- What the drive refuses leaves the block as it is. -/
theorem perform_stopped (hd : b.drive.Unlimited)
    (h : b.refused? direction sector buffer.size = none)
    (hdrive : b.drive.refusal? direction sector = some e) :
    b.perform (.transfer direction sector buffer) = .ok ({ result := .error e, buffer }, b) := by
  cases direction with
  | reads =>
      have hfetch : b.fetch sector = .ok (.error e, b) := by
        rw [fetch, hd.read_refused hdrive]
      refine Fault.bind_eq_ok.mpr ⟨(.error e, buffer, b), ?_, rfl⟩
      rw [read, show b.readRefusal? sector buffer.size = none from h]
      exact Fault.bind_eq_ok.mpr ⟨_, hfetch, rfl⟩
  | writes =>
      have hstore : ∀ data, b.store sector data = .ok (.error e, b) := fun data => by
        rw [store, hd.write_refused hdrive]
      refine Fault.bind_eq_ok.mpr ⟨(.error e, b), ?_, rfl⟩
      rw [write, show b.writeRefusal? sector buffer.size = none from h, Sector.ofBytes?,
        dif_pos (size_of_refused? h).2]
      exact hstore _

/-- A sector that is read is counted. -/
theorem perform_read (hd : b.drive.Unlimited) (h : b.refused? .reads sector buffer.size = none)
    (hdrive : b.drive.refusal? .reads sector = none)
    (hcount : b.readCount + 1 < Word.span counterBits) :
    ∃ hsector : sector < b.drive.sectors.size, b.perform (.transfer .reads sector buffer) =
      .ok ({ result := .ok (), buffer := b.drive.sectors[sector].toArray },
        { b with readCount := b.readCount + 1 }) := by
  obtain ⟨hsector, hread⟩ := hd.read_passed hdrive
  have hfetch : b.fetch sector =
      .ok (.ok b.drive.sectors[sector], { b with readCount := b.readCount + 1 }) := by
    rw [fetch, hread]
    exact Fault.bind_eq_ok.mpr ⟨_, Word.add_eq_ok hcount, rfl⟩
  refine ⟨hsector, Fault.bind_eq_ok.mpr ⟨(.ok (), _, _), ?_, rfl⟩⟩
  rw [read, show b.readRefusal? sector buffer.size = none from h]
  exact Fault.bind_eq_ok.mpr ⟨_, hfetch, rfl⟩

/-- A sector that is written is counted. -/
theorem perform_write (hd : b.drive.Unlimited) (h : b.refused? .writes sector buffer.size = none)
    (hdrive : b.drive.refusal? .writes sector = none)
    (hcount : b.writeCount + 1 < Word.span counterBits) :
    ∃ data : Sector, data.toArray = buffer ∧ b.perform (.transfer .writes sector buffer) =
      .ok ({ result := .ok (), buffer }, { b with
        drive := { b.drive with sectors := b.drive.sectors.setIfInBounds sector data }
        writeCount := b.writeCount + 1 }) := by
  refine ⟨⟨buffer, (size_of_refused? h).2⟩, rfl, Fault.bind_eq_ok.mpr ⟨(.ok (), _), ?_, rfl⟩⟩
  rw [write, show b.writeRefusal? sector buffer.size = none from h, Sector.ofBytes?,
    dif_pos (size_of_refused? h).2]
  show b.store sector _ = _
  rw [store, hd.write_passed hdrive]
  exact Fault.bind_eq_ok.mpr ⟨_, Word.add_eq_ok hcount, rfl⟩

/-! ## What a history tells -/

/-- The error is that of the first condition if it fails, and else that of a later one. -/
theorem firstFailing_cons (holds : Bool) (e : BlockError) (conditions : List (Bool × BlockError)) :
    (((holds, e) :: conditions).find? (!·.1)).map Prod.snd =
      if holds then (conditions.find? (!·.1)).map Prod.snd else some e := by
  cases holds <;> rfl

/-- The conditions that fail, one after the other. -/
theorem Layout.refusal?_transfer (l : Layout) (past : List Request) (direction : Direction)
    (sector : Nat) (buffer : Array UInt8) :
    l.refusal? past (.transfer direction sector buffer) =
      if l.size ≤ sector then some (.sectorOutOfBounds sector)
      else if buffer.size ≠ sectorSize then some (.bufferInvalid buffer.size)
      else if direction = .writes ∧ l.kind = .foreign then some .readOnly
      else if failing past direction then some direction.error
      else if l.disk ≤ sector then some (.sectorOutOfBounds sector)
      else none := by
  have hforeign : ¬ (direction = .writes ∧ l.kind = .foreign) ↔
      (direction = .writes → l.kind ≠ .foreign) := not_and
  simp only [refusal?, conditions, firstFailing_cons, decide_eq_true_eq, ← hforeign, ite_not,
    ← Nat.not_lt, Bool.not_eq_true', ne_eq]
  cases failing past direction <;> rfl

/-- A block that is as its history says. -/
structure Layout.Agrees (l : Layout) (past : List Request) (b : Block) : Prop where
  kind : b.kind = l.kind
  size : b.size = l.size
  told : ∀ direction, b.drive.told direction = { failing := failing past direction }
  sectors : b.drive.sectors.size = l.disk
  holds : ∀ s (hs : s < b.drive.sectors.size), b.drive.sectors[s].toArray = latest past s
  counts : ∀ direction, b.count direction = successes past direction

namespace Layout

theorem Agrees.unlimited (h : l.Agrees past b) : b.drive.Unlimited := fun direction => by
  rw [h.told direction]

/-- What the history tells about a transfer, the block finds out in two steps. -/
theorem Agrees.refusal?_eq (h : l.Agrees past b) :
    l.refusal? past (.transfer direction sector buffer) =
      (b.refused? direction sector buffer.size).or (b.drive.refusal? direction sector) := by
  rw [l.refusal?_transfer, b.refused?_eq, Drive.refusal?, h.kind, h.size, h.told, h.sectors]
  split
  · rfl
  split
  · rfl
  split <;> rfl

/-- **A transfer with a condition that fails is answered with its error**, and nothing changes. -/
theorem Agrees.perform_refused (h : l.Agrees past b)
    (hrefusal : l.refusal? past (.transfer direction sector buffer) = some e) :
    b.perform (.transfer direction sector buffer) = .ok ({ result := .error e, buffer }, b) := by
  rw [h.refusal?_eq, Option.or_eq_some_iff] at hrefusal
  rcases hrefusal with hrefused | ⟨hrefused, hdrive⟩
  · exact Block.perform_refused hrefused
  · exact perform_stopped h.unlimited hrefused hdrive

/-- **A read whose conditions hold answers what was written last.** -/
theorem Agrees.perform_read (h : l.Agrees past b)
    (hrefusal : l.refusal? past (.transfer .reads sector buffer) = none)
    (hcount : successes past .reads + 1 < Word.span counterBits) :
    b.perform (.transfer .reads sector buffer) =
      .ok ({ result := .ok (), buffer := latest past sector },
        { b with readCount := b.readCount + 1 }) := by
  rw [h.refusal?_eq, Option.or_eq_none_iff] at hrefusal
  rw [← h.counts .reads] at hcount
  obtain ⟨hsector, hperform⟩ := Block.perform_read h.unlimited hrefusal.1 hrefusal.2 hcount
  rw [hperform, h.holds sector hsector]

/-- **A write whose conditions hold replaces the sector.** -/
theorem Agrees.perform_write (h : l.Agrees past b)
    (hrefusal : l.refusal? past (.transfer .writes sector buffer) = none)
    (hcount : successes past .writes + 1 < Word.span counterBits) :
    ∃ data : Sector, data.toArray = buffer ∧ b.perform (.transfer .writes sector buffer) =
      .ok ({ result := .ok (), buffer }, { b with
        drive := { b.drive with sectors := b.drive.sectors.setIfInBounds sector data }
        writeCount := b.writeCount + 1 }) := by
  rw [h.refusal?_eq, Option.or_eq_none_iff] at hrefusal
  rw [← h.counts .writes] at hcount
  exact Block.perform_write h.unlimited hrefusal.1 hrefusal.2 hcount

/-! ## From one history to the next -/

/-- A block as it is made has no history. -/
theorem agrees_block (l : Layout) : l.Agrees [] l.block where
  kind := rfl
  size := rfl
  told := fun direction => by cases direction <;> rfl
  sectors := Array.size_replicate
  holds := fun s hs => congrArg Vector.toArray (Array.getElem_replicate _)
  counts := fun direction => by cases direction <;> rfl

theorem Agrees.read (h : l.Agrees past b) :
    l.Agrees (.transfer .reads sector buffer :: past) { b with readCount := b.readCount + 1 } where
  kind := h.kind
  size := h.size
  told := h.told
  sectors := h.sectors
  holds := h.holds
  counts := fun direction => by
    cases direction with
    | reads => exact congrArg (· + 1) (h.counts .reads)
    | writes => exact h.counts .writes

theorem Agrees.write (h : l.Agrees past b) (data : Sector) :
    l.Agrees (.transfer .writes sector data.toArray :: past) { b with
      drive := { b.drive with sectors := b.drive.sectors.setIfInBounds sector data }
      writeCount := b.writeCount + 1 } where
  kind := h.kind
  size := h.size
  told := h.told
  sectors := Array.size_setIfInBounds.trans h.sectors
  holds := fun s hs => by
    rw [latest, Array.getElem_setIfInBounds]
    split
    · rfl
    · exact h.holds s (Array.size_setIfInBounds ▸ hs)
  counts := fun direction => by
    cases direction with
    | reads => exact h.counts .reads
    | writes => exact congrArg (· + 1) (h.counts .writes)

theorem Agrees.fail (h : l.Agrees past b) (direction : Direction) (failing : Bool) :
    l.Agrees (.fail direction failing :: past)
      { b with drive := b.drive.tell direction fun told => { told with failing } } where
  kind := h.kind
  size := h.size
  told := fun other => by
    have hreads := h.told .reads
    have hwrites := h.told .writes
    simp only [Drive.told] at hreads hwrites
    cases direction <;> cases other <;>
      simp [Drive.tell, Drive.told, Block.failing, hreads, hwrites]
  sectors := by cases direction <;> exact h.sectors
  holds := by cases direction <;> exact h.holds
  counts := h.counts

theorem successes_le_next (l : Layout) (past : List Request) (request : Request)
    (direction : Direction) :
    successes past direction ≤ successes (l.next past request) direction := by
  rw [next]
  split
  · exact Nat.le_refl _
  · cases request with
    | transfer moved sector buffer => exact Nat.le_add_right _ _
    | fail told failing => exact Nat.le_refl _

/-- Transfers that succeeded stay in the history. -/
theorem successes_le_history (l : Layout) (past requests : List Request) (direction : Direction) :
    successes past direction ≤ successes (l.history past requests) direction := by
  induction requests generalizing past with
  | nil => exact Nat.le_refl _
  | cons request requests ih =>
      exact Nat.le_trans (l.successes_le_next past request direction) (ih _)

/-- **The step.** What is asked is answered as the history tells, and the block is then as the next
history says. -/
theorem Agrees.perform (h : l.Agrees past b) (request : Request)
    (hcount : ∀ direction, successes (l.next past request) direction < Word.span counterBits) :
    ∃ answer b', b.perform request = .ok (answer, b') ∧ l.Agrees (l.next past request) b' ∧
      answer.result.isOk = (l.refusal? past request).isNone := by
  cases request with
  | fail direction failing => exact ⟨_, _, rfl, h.fail direction failing, rfl⟩
  | transfer direction sector buffer =>
      unfold next at hcount ⊢
      cases hrefusal : l.refusal? past (.transfer direction sector buffer) with
      | some e => exact ⟨_, _, h.perform_refused hrefusal, h, rfl⟩
      | none =>
          rw [hrefusal] at hcount
          cases direction with
          | reads => exact ⟨_, _, h.perform_read hrefusal (hcount .reads), h.read, rfl⟩
          | writes =>
              obtain ⟨data, rfl, hperform⟩ := h.perform_write hrefusal (hcount .writes)
              exact ⟨_, _, hperform, h.write data, rfl⟩

end Layout

/-- What happened, by the answers: the requests that succeeded, the last one first. -/
def happened (requests : List Request) (answers : List Answer) : List Request :=
  (((requests.zip answers).filter fun asked => asked.2.result.isOk).map Prod.fst).reverse

namespace Layout

/-- **The run.** All requests are answered, and what happened is what the history tells. -/
theorem Agrees.run {requests : List Request} (h : l.Agrees past b)
    (hcount : ∀ direction,
      successes (l.history past requests) direction < Word.span counterBits) :
    ∃ answers b', b.run requests = .ok (answers, b') ∧ answers.length = requests.length ∧
      l.Agrees (l.history past requests) b' ∧
      l.history past requests = happened requests answers ++ past := by
  induction requests generalizing past b with
  | nil => exact ⟨[], b, rfl, rfl, h, rfl⟩
  | cons request requests ih =>
      obtain ⟨answer, b₁, hperform, h₁, hok⟩ := h.perform request fun direction =>
        Nat.lt_of_le_of_lt (l.successes_le_history _ requests direction) (hcount direction)
      obtain ⟨answers, b₂, hrun, hlength, h₂, hhappened⟩ := ih h₁ hcount
      refine ⟨answer :: answers, b₂, ?_, congrArg (· + 1) hlength, h₂, hhappened.trans ?_⟩
      · exact Fault.bind_eq_ok.mpr ⟨_, hperform, Fault.bind_eq_ok.mpr ⟨_, hrun, rfl⟩⟩
      · unfold next happened
        rw [List.zip_cons_cons, List.filter_cons, hok]
        cases l.refusal? past request with
        | none => simp
        | some e => rfl

/-! ## The disk under the block -/

theorem Agrees.size_flat (h : l.Agrees past b) : b.drive.flat.data.size = l.disk * sectorSize := by
  rw [Drive.flat_size, h.sectors]

/-- The bytes between the bounds of a sector are those written last. -/
theorem Agrees.extract_flat (h : l.Agrees past b) (hsector : sector < l.disk) :
    b.drive.flat.data.extract (sector * sectorSize) (sector * sectorSize + sectorSize) =
      latest past sector := by
  have hin : sector < b.drive.sectors.size := h.sectors.symm ▸ hsector
  rw [Drive.flat_extract hin, h.holds sector hin]

/-- The answer to a transfer, and what the block is afterwards. -/
structure Transferred (l : Layout) (past : List Request) (direction : Direction) (sector : Nat)
    (buffer : Array UInt8) (b : Block) (answer : Answer) (b' : Block) : Prop where
  succeeds : answer.result = .ok () ↔ sector < l.size ∧ buffer.size = sectorSize ∧
    (direction = .writes → l.kind ≠ .foreign) ∧ failing past direction = false ∧ sector < l.disk
  fails : ∀ e, answer.result = .error e → ∃ met later,
    l.conditions past direction sector buffer.size = met ++ (false, e) :: later ∧
      ∀ condition ∈ met, condition.1 = true
  unchanged : ∀ e, answer.result = .error e → answer.buffer = buffer ∧ b' = b
  reads : answer.result = .ok () → direction = .reads →
    answer.buffer = latest past sector ∧ b'.drive = b.drive
  writes : answer.result = .ok () → direction = .writes → answer.buffer = buffer ∧
    ∀ i, b'.drive.flat.data[i]? =
      if sector * sectorSize ≤ i ∧ i < sector * sectorSize + sectorSize then
        buffer[i - sector * sectorSize]?
      else b.drive.flat.data[i]?
  driver : sector < l.size → buffer.size = sectorSize →
    (direction = .writes → l.kind ≠ .foreign) →
    b.drive.flat.transfer direction sector buffer =
      .ok (answer.result, answer.buffer, b'.drive.flat)

/-- The refusal is the error of the first condition that does not hold. -/
theorem refusal?_eq_some (h : l.refusal? past (.transfer direction sector buffer) = some e) :
    ∃ met later, l.conditions past direction sector buffer.size = met ++ (false, e) :: later ∧
      ∀ condition ∈ met, condition.1 = true := by
  obtain ⟨⟨holds, e'⟩, hfind, rfl⟩ := Option.map_eq_some_iff.mp h
  obtain ⟨hfails, met, later, hconditions, hmet⟩ := List.find?_eq_some_iff_append.mp hfind
  refine ⟨met, later, ?_, fun condition hin => ?_⟩
  · rw [hconditions, show holds = false from Bool.not_eq_true' .. ▸ hfails]
  · simpa using hmet condition hin

/-- Nothing is refused exactly when all conditions hold. -/
theorem refusal?_eq_none : l.refusal? past (.transfer direction sector buffer) = none ↔
    sector < l.size ∧ buffer.size = sectorSize ∧ (direction = .writes → l.kind ≠ .foreign) ∧
      failing past direction = false ∧ sector < l.disk := by
  have hkind : (direction = .writes → l.kind ≠ .foreign) ↔
      direction ≠ .writes ∨ l.kind ≠ .foreign := imp_iff_not_or
  simp [refusal?, conditions, List.find?_eq_none, hkind]

theorem Agrees.drive_refusal? (h : l.Agrees past b) (hsector : sector < l.size)
    (hlength : buffer.size = sectorSize) (hkind : direction = .writes → l.kind ≠ .foreign) :
    b.drive.refusal? direction sector = l.refusal? past (.transfer direction sector buffer) := by
  have hforeign : ¬ (direction = .writes ∧ b.kind = .foreign) := by
    rw [h.kind]
    exact not_and.mpr hkind
  have hpassed : b.refused? direction sector buffer.size = none := by
    rw [refused?_eq, if_neg (Nat.not_le.mpr (h.size.symm ▸ hsector)),
      if_neg (not_not_intro hlength), if_neg hforeign]
  rw [h.refusal?_eq, hpassed]
  rfl

/-- **A transfer, as the history tells.** -/
theorem Agrees.transferred {answer : Answer} (h : l.Agrees past b)
    (hsize : l.size < Word.span counterBits)
    (hcount : ∀ direction', successes (l.next past (.transfer direction sector buffer)) direction' <
      Word.span counterBits)
    (hperform : b.perform (.transfer direction sector buffer) = .ok (answer, b')) :
    l.Transferred past direction sector buffer b answer b' := by
  unfold next at hcount
  cases hrefusal : l.refusal? past (.transfer direction sector buffer) with
  | some e =>
      cases (h.perform_refused hrefusal).symm.trans hperform
      exact
        { succeeds := ⟨nofun, fun hmet => nomatch hrefusal.symm.trans (refusal?_eq_none.mpr hmet)⟩
          fails := fun _ he => by cases he; exact refusal?_eq_some hrefusal
          unchanged := fun _ _ => ⟨rfl, rfl⟩
          reads := nofun
          writes := nofun
          driver := fun hsector hlength hkind => Drive.flat_refused
            ((h.drive_refusal? hsector hlength hkind).trans hrefusal)
            (Nat.lt_trans hsector hsize) }
  | none =>
      have hmet := refusal?_eq_none.mp hrefusal
      have hdrive := (h.drive_refusal? hmet.1 hmet.2.1 hmet.2.2.1).trans hrefusal
      have hword := Nat.lt_trans hmet.1 hsize
      rw [hrefusal] at hcount
      cases direction with
      | reads =>
          cases (h.perform_read hrefusal (hcount .reads)).symm.trans hperform
          obtain ⟨hin, hflat⟩ := Drive.flat_read buffer hdrive hword
          exact
            { succeeds := ⟨fun _ => hmet, fun _ => rfl⟩
              fails := nofun
              unchanged := nofun
              reads := fun _ _ => ⟨rfl, rfl⟩
              writes := nofun
              driver := fun _ _ _ => h.holds sector hin ▸ hflat }
      | writes =>
          obtain ⟨data, rfl, hwritten⟩ := h.perform_write hrefusal (hcount .writes)
          cases hwritten.symm.trans hperform
          have hin := (Drive.refusal?_eq_none.mp hdrive).2
          exact
            { succeeds := ⟨fun _ => hmet, fun _ => rfl⟩
              fails := nofun
              unchanged := nofun
              reads := nofun
              writes := fun _ _ => ⟨rfl, fun i => by
                show (Drive.flat { b.drive with sectors := _ }).data[i]? = _
                rw [← Drive.flat_set hin]
                exact FlatDisk.getElem?_overwrite (congrArg _ hmet.2.1)
                  (Nat.le_of_not_lt fun hlt => Nat.not_lt.mpr (Drive.flat_size_lt_iff.mp hlt) hin) i⟩
              driver := fun _ _ _ => Drive.flat_write hdrive hword }

theorem history_append (l : Layout) (past earlier later : List Request) (request : Request) :
    l.history past (earlier ++ request :: later) =
      l.history (l.next (l.history past earlier) request) later := List.foldl_append

end Layout

/-- **A block over a disk in memory is an array of sectors.** Take a block of any kind over a disk of
any size, and any requests, the switches of the disk being turned in between, with fewer successful
transfers in each direction than the block can count. All of them are answered. The sectors hold
what was last written to them, zeros at first, and the counts are those of the transfers that
succeeded.

A transfer succeeds if and only if its five conditions hold. Otherwise it is answered with the error
of the first that does not, and block, disk and buffer are as they were. What is read is what was
last written to the sector, and what is written changes no byte outside of it. A driver that keeps
only bytes does the same, request by request. -/
theorem block_is_an_array_of_sectors (l : Layout) (requests : List Request)
    (hsize : l.size < Word.span counterBits)
    (hcount : ∀ direction, successes (l.history [] requests) direction < Word.span counterBits) :
    (∃ answers b, l.block.run requests = .ok (answers, b) ∧ answers.length = requests.length ∧
      happened requests answers = l.history [] requests ∧
      l.Agrees (happened requests answers) b ∧
      b.drive.flat.data.size = l.disk * sectorSize ∧
      ∀ sector, sector < l.disk →
        b.drive.flat.data.extract (sector * sectorSize) (sector * sectorSize + sectorSize) =
          latest (happened requests answers) sector) ∧
    ∀ earlier direction sector buffer later,
      requests = earlier ++ .transfer direction sector buffer :: later →
      ∃ answers b answer b', l.block.run earlier = .ok (answers, b) ∧
        happened earlier answers = l.history [] earlier ∧ l.Agrees (happened earlier answers) b ∧
        b.perform (.transfer direction sector buffer) = .ok (answer, b') ∧
        l.Transferred (happened earlier answers) direction sector buffer b answer b' := by
  constructor
  · obtain ⟨answers, b, hrun, hlength, hagrees, hhappened⟩ := l.agrees_block.run hcount
    rw [List.append_nil] at hhappened
    rw [hhappened] at hagrees
    exact ⟨answers, b, hrun, hlength, hhappened.symm, hagrees, hagrees.size_flat,
      fun sector hsector => hagrees.extract_flat hsector⟩
  · rintro earlier direction sector buffer later rfl
    rw [l.history_append] at hcount
    have hnext := fun direction' =>
      Nat.lt_of_le_of_lt (l.successes_le_history _ later direction') (hcount direction')
    obtain ⟨answers, b, hrun, -, hagrees, hhappened⟩ := l.agrees_block.run fun direction' =>
      Nat.lt_of_le_of_lt (l.successes_le_next _ _ direction') (hnext direction')
    obtain ⟨answer, b', hperform, -, -⟩ := hagrees.perform _ hnext
    rw [List.append_nil] at hhappened
    have htransferred := hagrees.transferred hsize hnext hperform
    rw [hhappened] at hagrees htransferred
    exact ⟨answers, b, answer, b', hrun, hhappened.symm, hagrees, hperform, htransferred⟩

/-- A block of four sectors over a disk of two: the second sector is written, is not written again
while the writes fail, and is read as it was written. The third is not on the disk. -/
theorem block_is_an_array_of_two_sectors :
    let sevens : Array UInt8 := Array.replicate sectorSize 7
    let zeros : Array UInt8 := Array.replicate sectorSize 0
    let l : Layout := { kind := .raw, name := "disk", size := 4, disk := 2 }
    let earlier : List Request :=
      [.transfer .writes 1 sevens, .fail .writes true, .transfer .writes 1 zeros,
        .transfer .reads 2 zeros]
    (l.size < Word.span counterBits ∧ ∀ direction,
      successes (l.history [] (earlier ++ [.transfer .reads 1 zeros])) direction <
        Word.span counterBits) ∧
      ∃ answers b answer b', l.block.run earlier = .ok (answers, b) ∧
        b.perform (.transfer .reads 1 zeros) = .ok (answer, b') ∧ answer.result = .ok () ∧
        answer.buffer = sevens := by
  intro sevens zeros l earlier
  have hwritten : l.refusal? [] (.transfer .writes 1 sevens) = none := by decide +kernel
  have hagain : l.refusal? [.fail .writes true, .transfer .writes 1 sevens]
      (.transfer .writes 1 zeros) = some .writeError := by decide +kernel
  have hbeyond : l.refusal? [.fail .writes true, .transfer .writes 1 sevens]
      (.transfer .reads 2 zeros) = some (.sectorOutOfBounds 2) := by decide +kernel
  have hearlier : l.history [] earlier = [.fail .writes true, .transfer .writes 1 sevens] := by
    have htold : ∀ past, l.refusal? past (.fail .writes true) = none := fun _ => rfl
    simp [earlier, Layout.history, Layout.next, hwritten, htold, hagain, hbeyond]
  have hcount : ∀ direction,
      successes (l.history [] (earlier ++ [.transfer .reads 1 zeros])) direction <
        Word.span counterBits := fun direction => by
    rw [l.history_append, hearlier]
    cases direction <;> decide +kernel
  obtain ⟨answers, b, answer, b', hrun, hhappened, -, hperform, htransferred⟩ :=
    (block_is_an_array_of_sectors l _ (by decide) hcount).2 earlier .reads 1 zeros [] rfl
  rw [hhappened, hearlier] at htransferred
  have hdone : answer.result = .ok () := htransferred.succeeds.mpr (by decide +kernel)
  exact ⟨⟨by decide, hcount⟩, answers, b, answer, b', hrun, hperform, hdone,
    (htransferred.reads hdone rfl).1⟩

end Block

end PhysMem
