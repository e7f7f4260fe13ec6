import EmacsRelay.Core.Framing
import EmacsRelay.Server.Payload
import Mathlib.Data.List.Nodup

set_option autoImplicit false

/- A listing from the server's directory to the client's filter: which directories have one that fits
in frames. -/
namespace EmacsRelay.Server

/-- The listing of a directory whose entries come as `rd`, with every message that is made. -/
def listing (selfMd : Option RawMetadata) (rd : List (Option DirEntry)) :
    List (ReaddirReply Entry (Option Attrs)) :=
  readdirStream (fun _ => 0) (fun _ => true) (statValue (selfMd.map RawMetadata.decoded))
    (.ok (rd.map (Option.map DirEntry.value)))

/-- What `readdir_stream` hands to the writer thread of it. -/
def handed (id : Int) (selfMd : Option RawMetadata) (rd : List (Option DirEntry)) :
    List (ReaddirReply Entry (Option Attrs)) :=
  readdirStream (fun reply => (payload id reply).length) (fun _ => true)
    (statValue (selfMd.map RawMetadata.decoded)) (.ok (rd.map (Option.map DirEntry.value)))

/-- Every message fits in a frame, and the client, whose limit is the server's, dispatches all of
them, however the stream is cut. -/
structure Delivered (id : Int) (selfMd : Option RawMetadata) (rd : List (Option DirEntry)) : Prop where
  fits : ∀ reply ∈ listing selfMd rd, (payload id reply).length ≤ maxFrameBytes
  received : ∀ pieces : List Bytes,
    pieces.flatten = RelayCore.written ((handed id selfMd rd).map (payload id)) →
    (RelayCore.receiveAll maxFrameBytes pieces).live = true ∧
      (RelayCore.receiveAll maxFrameBytes pieces).dispatched = (listing selfMd rd).map (payload id)

/-- The bytes of the names, the targets and the numbers of each two thousand entries, and of the
others, leave room in a frame. -/
structure Small (id : Int) (selfMd : Option RawMetadata) (entries : List DirEntry) : Prop where
  chunks : ∀ k, k < entries.length / readdirChunkSize →
    chunkCost id ((entries.drop (readdirChunkSize * k)).take readdirChunkSize) ≤ maxFrameBytes
  last : lastCost id selfMd (remainder entries) ≤ maxFrameBytes

/-- The names are those of a directory, and the targets those of links. -/
structure Listable (entries : List DirEntry) : Prop where
  named : ∀ e ∈ entries, e.fileName ≠ [] ∧ e.fileName.length ≤ 255 ∧ 0 ∉ e.fileName ∧ 47 ∉ e.fileName
  distinct : (entries.map DirEntry.fileName).Nodup
  linked : ∀ e ∈ entries, ∀ md target, e.metadata = some md → md.readLink = some target →
    target ≠ [] ∧ target.length ≤ 4095 ∧ 0 ∉ target

section Messages

variable {id : Int} {selfMd : Option RawMetadata} {rd : List (Option DirEntry)}

theorem readable_value (rd : List (Option DirEntry)) :
    readable (rd.map (Option.map DirEntry.value)) = (readable rd).map DirEntry.value := by
  unfold readable
  induction rd with
  | nil => rfl
  | cons entry rd ih =>
      cases entry with
      | none => exact ih
      | some entry => exact congrArg (entry.value :: ·) ih

/-- The messages, by the entries in them. -/
theorem stream_eq (size : ReaddirReply Entry (Option Attrs) → Nat) (selfAttrs : Option Attrs)
    (rd : List (Option DirEntry)) :
    readdirStream size (fun _ => true) selfAttrs (.ok (rd.map (Option.map DirEntry.value))) =
      ((List.range ((readable rd).length / readdirChunkSize)).map fun k =>
        .chunk ((((readable rd).drop (readdirChunkSize * k)).take readdirChunkSize).map
          DirEntry.value)) ++
      sendReply size (.last ((remainder (readable rd)).map DirEntry.value) selfAttrs) := by
  rw [readdirStream_complete, readable_value, List.length_map]
  simp only [remainder, List.length_map, List.map_drop, List.map_take]

theorem listing_eq (selfMd : Option RawMetadata) (rd : List (Option DirEntry)) :
    listing selfMd rd =
      ((List.range ((readable rd).length / readdirChunkSize)).map fun k =>
        .chunk ((((readable rd).drop (readdirChunkSize * k)).take readdirChunkSize).map
          DirEntry.value)) ++
      [.last ((remainder (readable rd)).map DirEntry.value)
        (statValue (selfMd.map RawMetadata.decoded))] := by
  rw [listing, stream_eq]
  rfl

theorem fits_iff :
    (∀ reply ∈ listing selfMd rd, (payload id reply).length ≤ maxFrameBytes) ↔
      Small id selfMd (readable rd) := by
  rw [listing_eq]
  constructor
  · intro fits
    constructor
    · intro k inside
      rw [← length_chunk]
      apply fits
      exact List.mem_append_left _ (List.mem_map.mpr ⟨k, List.mem_range.mpr inside, rfl⟩)
    · rw [← length_last]
      exact fits _ (List.mem_append_right _ List.mem_cons_self)
  · intro small reply member
    rcases List.mem_append.mp member with chunk | last
    · obtain ⟨k, inside, same⟩ := List.mem_map.mp chunk
      rw [← same, length_chunk]
      exact small.chunks k (List.mem_range.mp inside)
    · rw [List.mem_singleton.mp last, length_last]
      exact small.last

theorem handed_eq (fits : ∀ reply ∈ listing selfMd rd, (payload id reply).length ≤ maxFrameBytes) :
    handed id selfMd rd = listing selfMd rd := by
  have last := fits _ (by
    rw [listing_eq]
    exact List.mem_append_right _ List.mem_cons_self)
  rw [handed, stream_eq, listing_eq, sendReply, if_pos last]

end Messages

/-- A listing is delivered in whole just when its entries leave room in each of its frames. -/
theorem listing_delivered_iff (id : Int) (selfMd : Option RawMetadata)
    (rd : List (Option DirEntry)) :
    Delivered id selfMd rd ↔ Small id selfMd (readable rd) := by
  constructor
  · exact fun delivered => fits_iff.mp delivered.fits
  · intro small
    have fits := fits_iff.mpr small
    refine ⟨fits, ?_⟩
    intro pieces whole
    rw [handed_eq fits] at whole
    have allowed : ∀ bytes ∈ (listing selfMd rd).map (payload id), bytes.length ≤ maxFrameBytes := by
      intro bytes member
      obtain ⟨reply, made, same⟩ := List.mem_map.mp member
      exact same ▸ fits reply made
    have received := RelayCore.receiveAll_drain maxFrameBytes pieces
    rw [whole, RelayCore.drain_written (by decide) allowed] at received
    have ended : (!(RelayCore.receiveAll maxFrameBytes pieces).live) = false :=
      congrArg Deframed.ended received
    exact ⟨by simpa using ended, congrArg Deframed.payloads received⟩

/-- Entry number `i` of a directory of links, whose targets are as long as they can be, and of
control characters. -/
def longLink (i : Nat) : DirEntry :=
  { fileName := [UInt8.ofNat (48 + i / 200), UInt8.ofNat (48 + i % 200)]
    metadata := some ⟨.symlink, 4095, 0, 0, 0o120777, some (List.replicate 4095 1)⟩ }

def longLinks : List DirEntry := (List.range 2000).map longLink

theorem listable_longLinks : Listable longLinks := by
  have bytes : ∀ i, i < 2000 → (UInt8.ofNat (48 + i / 200)).toNat = 48 + i / 200 ∧
      (UInt8.ofNat (48 + i % 200)).toNat = 48 + i % 200 := by
    intro i inside
    simp only [UInt8.toNat_ofNat']
    omega
  have differs : ∀ (n : Nat) (b : UInt8), n < 48 → 48 ≤ b.toNat → UInt8.ofNat n ≠ b := by
    intro n b small large same
    rw [← same, UInt8.toNat_ofNat'] at large
    omega
  constructor
  · intro e member
    obtain ⟨i, inside, same⟩ := List.mem_map.mp member
    obtain ⟨one, two⟩ := bytes i (List.mem_range.mp inside)
    have first : ∀ n < 48, UInt8.ofNat n ∉ e.fileName := by
      intro n small
      rw [← same, longLink, List.mem_cons, List.mem_singleton, not_or]
      exact ⟨differs n _ small (by omega), differs n _ small (by omega)⟩
    refine ⟨?_, ?_, first 0 (by omega), first 47 (by omega)⟩
    · rw [← same]
      exact List.cons_ne_nil _ _
    · rw [← same]
      exact Nat.le_of_ble_eq_true rfl
  · rw [longLinks, List.map_map]
    apply List.Nodup.map_on _ List.nodup_range
    intro i inside j other same
    obtain ⟨one, two⟩ := bytes i (List.mem_range.mp inside)
    obtain ⟨three, four⟩ := bytes j (List.mem_range.mp other)
    have heads := congrArg UInt8.toNat (List.cons.inj same).1
    have tails := congrArg UInt8.toNat (List.cons.inj (List.cons.inj same).2).1
    omega
  · intro e member md target found linked
    obtain ⟨i, _, same⟩ := List.mem_map.mp member
    rw [← same] at found
    rw [← Option.some.inj found] at linked
    rw [← Option.some.inj linked]
    refine ⟨?_, Nat.le_of_eq List.length_replicate, ?_⟩
    · intro none
      have lengths := congrArg List.length none
      rw [List.length_replicate, List.length_nil] at lengths
      omega
    intro zero
    exact absurd (List.eq_of_mem_replicate zero) (by decide)

theorem target_le_entry {e : DirEntry} {md : RawMetadata} {target : Option Bytes}
    (found : e.metadata = some md) (link : md.fileType = .symlink) (leads : md.readLink = target) :
    targetCost target ≤ entryCost e := by
  unfold entryCost attrsCost
  rw [found]
  dsimp only
  rw [link, leads]
  dsimp only
  omega

theorem chunk_too_long (id : Int) {batch : List DirEntry} (full : 2000 ≤ batch.length)
    (each : ∀ e ∈ batch, 24570 ≤ entryCost e) : maxFrameBytes < chunkCost id batch := by
  have total : 24570 * batch.length ≤ (batch.map entryCost).sum := by
    clear full
    induction batch with
    | nil => exact Nat.le_refl 0
    | cons e batch ih =>
        have one := each e List.mem_cons_self
        have others := ih fun other later => each other (List.mem_cons_of_mem _ later)
        simp only [List.map_cons, List.sum_cons, List.length_cons]
        omega
  unfold maxFrameBytes chunkCost
  omega

theorem listing_too_long :
    ¬ ∀ (id : Int) (selfMd : Option RawMetadata) (rd : List (Option DirEntry)),
      Listable (readable rd) → Delivered id selfMd rd := by
  intro claim
  have read : readable (longLinks.map some) = longLinks := by simp [readable]
  have delivered := claim 1 none (longLinks.map some) (by
    rw [read]
    exact listable_longLinks)
  have small := fits_iff.mp delivered.fits
  rw [read] at small
  have count : longLinks.length = 2000 := by simp [longLinks]
  have chunk := small.chunks 0 (by rw [count]; decide)
  have whole : longLinks.take readdirChunkSize = longLinks :=
    List.take_of_length_le (Nat.le_of_eq count)
  rw [Nat.mul_zero, List.drop_zero, whole] at chunk
  have cost : ∀ i, 24570 ≤ entryCost (longLink i) := by
    intro i
    have escaped : (utf8Bytes (Json.escapeChar (Char.ofNat 1))).length = 6 := by decide
    have target : targetCost (some (List.replicate 4095 1)) = 2 + 4095 * 6 := by
      have plain : Lossy.decode (List.replicate 4095 1) = List.replicate 4095 (Char.ofNat 1) := by
        have letter : Char.ofNat (1 : UInt8).toNat = Char.ofNat 1 := by decide
        rw [Lossy.decode_ascii, List.map_replicate, letter]
        · intro b member
          rw [List.eq_of_mem_replicate member]
          decide
      rw [targetCost, plain, Json.quotedSize_replicate, escaped]
    have within : targetCost (some (List.replicate 4095 1)) ≤ entryCost (longLink i) :=
      target_le_entry rfl rfl rfl
    rw [target] at within
    exact Nat.le_trans (by decide) within
  have each : ∀ e ∈ longLinks, 24570 ≤ entryCost e := by
    intro e member
    obtain ⟨i, _, same⟩ := List.mem_map.mp member
    exact same ▸ cost i
  exact absurd chunk (Nat.not_le_of_lt (chunk_too_long 1 (Nat.le_of_eq count.symm) each))

end EmacsRelay.Server
