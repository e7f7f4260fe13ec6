import Mathlib.Data.List.Basic

set_option autoImplicit false

/- Cutting a stream into frames as its pieces arrive. The result does not depend on where the
stream was cut, provided that more input never changes what the front of the stream holds. -/

variable {β π : Type}

/-- What the unread part of a stream starts with. -/
inductive Front (β π : Type) where
  | short
  | bad
  | frame (payload : π) (rest : List β)

/-- A reader of the front of a stream. -/
structure Deframer (β π : Type) where
  front : List β → Front β π
  shrinks : ∀ {xs payload rest}, front xs = .frame payload rest → rest.length < xs.length
  frame_append : ∀ {xs payload rest} (ys : List β),
    front xs = .frame payload rest → front (xs ++ ys) = .frame payload (rest ++ ys)
  bad_append : ∀ {xs} (ys : List β), front xs = .bad → front (xs ++ ys) = .bad

/-- The frames read so far and the unread part. Nothing is kept or read after a bad frame. -/
structure Deframed (β π : Type) where
  payloads : List π
  rest : List β
  ended : Bool

def Deframed.after (earlier : List π) (later : Deframed β π) : Deframed β π :=
  { later with payloads := earlier ++ later.payloads }

@[simp] theorem Deframed.after_nil (later : Deframed β π) : later.after [] = later := rfl

theorem Deframed.after_after (first second : List π) (later : Deframed β π) :
    (later.after second).after first = later.after (first ++ second) := by
  simp [Deframed.after]

namespace Deframer

variable (d : Deframer β π)

/-- Read as many frames as there are. -/
def drain (xs : List β) : Deframed β π :=
  match _found : d.front xs with
  | .short => ⟨[], xs, false⟩
  | .bad => ⟨[], [], true⟩
  | .frame payload rest => (drain rest).after [payload]
termination_by xs.length
decreasing_by exact d.shrinks _found

/-- A piece of the stream arrives. -/
def feed (s : Deframed β π) (chunk : List β) : Deframed β π :=
  if s.ended then s else (d.drain (s.rest ++ chunk)).after s.payloads

variable {d} {xs rest : List β} {payload : π}

theorem drain_short (short : d.front xs = .short) : d.drain xs = ⟨[], xs, false⟩ := by
  rw [drain]
  split
  · rfl
  · rename_i bad
    exact nomatch short.symm.trans bad
  · rename_i frame
    exact nomatch short.symm.trans frame

theorem drain_bad (bad : d.front xs = .bad) : d.drain xs = ⟨[], [], true⟩ := by
  rw [drain]
  split
  · rename_i short
    exact nomatch bad.symm.trans short
  · rfl
  · rename_i frame
    exact nomatch bad.symm.trans frame

theorem drain_frame (frame : d.front xs = .frame payload rest) :
    d.drain xs = (d.drain rest).after [payload] := by
  rw [drain]
  split
  · rename_i short
    exact nomatch frame.symm.trans short
  · rename_i bad
    exact nomatch frame.symm.trans bad
  · rename_i payload' rest' found
    have same := Front.frame.inj (frame.symm.trans found)
    rw [same.1, same.2]

theorem feed_after (earlier : List π) (s : Deframed β π) (chunk : List β) :
    d.feed (s.after earlier) chunk = (d.feed s chunk).after earlier := by
  by_cases ended : s.ended = true
  · simp [feed, Deframed.after, ended]
  · simp [feed, Deframed.after, ended]

/-- Reading what there is and then the rest is reading the whole. -/
theorem drain_append (xs ys : List β) : d.drain (xs ++ ys) = d.feed (d.drain xs) ys := by
  cases found : d.front xs with
  | short =>
      rw [drain_short found]
      rfl
  | bad =>
      rw [drain_bad found, drain_bad (d.bad_append ys found)]
      rfl
  | frame payload rest =>
      have smaller := d.shrinks found
      rw [drain_frame found, drain_frame (d.frame_append ys found), feed_after, drain_append rest ys]
termination_by xs.length

/-- However the stream is cut, the frames and the unread part are those of the whole. -/
theorem feed_all (xs : List β) (chunks : List (List β)) :
    chunks.foldl d.feed (d.drain xs) = d.drain (xs ++ chunks.flatten) := by
  induction chunks generalizing xs with
  | nil => simp
  | cons chunk chunks ih =>
      rw [List.foldl_cons, ← drain_append, ih, List.flatten_cons, List.append_assoc]

/-- The reader undoes `encode` on payloads that fit, and waits for the rest of one. -/
structure Reads (d : Deframer β π) (encode : π → List β) (fits : π → Prop) : Prop where
  whole : ∀ {payload}, fits payload → ∀ rest, d.front (encode payload ++ rest) = .frame payload rest
  incomplete : ∀ {payload xs}, fits payload → xs <+: encode payload → xs ≠ encode payload →
    d.front xs = .short

/-- The beginning of the next frame, if another frame is due. -/
def Begins (encode : π → List β) (due : List π) (rest : List β) : Prop :=
  match due with
  | [] => rest = []
  | payload :: _ => rest <+: encode payload ∧ rest ≠ encode payload

variable {encode : π → List β} {fits : π → Prop} {payloads : List π}

theorem drain_encoded (reads : d.Reads encode fits) (fit : ∀ payload ∈ payloads, fits payload)
    (rest : List β) :
    d.drain (payloads.flatMap encode ++ rest) = (d.drain rest).after payloads := by
  induction payloads with
  | nil => rfl
  | cons payload payloads ih =>
      have whole := reads.whole (fit payload (by simp)) (payloads.flatMap encode ++ rest)
      rw [List.flatMap_cons, List.append_assoc, drain_frame whole,
        ih fun payload member => fit payload (by simp [member]), Deframed.after_after]
      rfl

/-- Any part of a stream of frames is the frames that are complete and the beginning of one. -/
theorem split_of_prefix (part : xs <+: payloads.flatMap encode) :
    ∃ complete due rest, payloads = complete ++ due ∧ xs = complete.flatMap encode ++ rest ∧
      Begins encode due rest := by
  induction payloads generalizing xs with
  | nil => exact ⟨[], [], [], rfl, by simpa using part, rfl⟩
  | cons payload payloads ih =>
      have frame : encode payload <+: (payload :: payloads).flatMap encode := by simp
      by_cases reaches : encode payload <+: xs
      · obtain ⟨suffix, rfl⟩ := reaches
        have later : suffix <+: payloads.flatMap encode := by
          simpa [List.flatMap_cons] using part
        obtain ⟨complete, due, rest, rfl, rfl, begins⟩ := ih later
        exact ⟨payload :: complete, due, rest, rfl, by simp, begins⟩
      · have within : xs <+: encode payload :=
          (List.prefix_or_prefix_of_prefix part frame).resolve_right reaches
        refine ⟨[], payload :: payloads, xs, rfl, rfl, within, ?_⟩
        intro whole
        exact reaches (whole ▸ List.prefix_refl _)

/-- After any part of a stream of frames: the complete ones are read, and what is unread is the
beginning of the next. -/
theorem drain_prefix (reads : d.Reads encode fits) (fit : ∀ payload ∈ payloads, fits payload)
    (empty : d.front [] = .short) (part : xs <+: payloads.flatMap encode) :
    ∃ complete due rest, payloads = complete ++ due ∧ xs = complete.flatMap encode ++ rest ∧
      Begins encode due rest ∧ d.drain xs = ⟨complete, rest, false⟩ := by
  obtain ⟨complete, due, rest, rfl, rfl, begins⟩ := split_of_prefix part
  have waiting : d.front rest = .short := by
    cases due with
    | nil =>
        have nothing : rest = [] := begins
        rw [nothing, empty]
    | cons payload due =>
        exact reads.incomplete (fit payload (by simp)) begins.1 begins.2
  have fitting : ∀ payload ∈ complete, fits payload := fun payload member =>
    fit payload (List.mem_append_left due member)
  have read := drain_encoded reads fitting rest
  rw [drain_short waiting] at read
  exact ⟨complete, due, rest, rfl, rfl, begins, by simpa [Deframed.after] using read⟩

end Deframer
