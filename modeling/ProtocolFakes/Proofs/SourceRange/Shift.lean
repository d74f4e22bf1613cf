import ProtocolFakes.Proofs.SourceRange.Envelope

/-!
# Moving ranges

`SourceRange.shift` moves a range forward.  Where the end of the moved range is an offset
(`Movable`) nothing is clamped: location and end grow by the same number, and the length
stays (`location_shift`, `stop_shift`).

Moving commutes with every way to make a range out of others.  An empty range behind
another one may even be clamped, because both ends are (`shift_emptyAt_stop`); a range
between two offsets and an envelope have to be movable (`shift_ofBounds`,
`envelopeOf?_map_shift`).
-/

namespace ProtocolFakes.SourceRange

set_option autoImplicit false

/-- A range that ends at an offset, also when it is moved. -/
def Movable (base : Nat) (r : SourceRange) : Prop := r.location + r.length + base ≤ maxOffset

section Movable

variable {base : Nat} {r : SourceRange}

theorem Movable.fits (movable : r.Movable base) : r.Fits :=
  Nat.le_trans (Nat.le_add_right ..) movable

theorem Movable.stop_add_le (movable : r.Movable base) : r.stop + base ≤ maxOffset := by
  rw [stop_of_fits movable.fits]
  exact movable

theorem Movable.location_add_le (movable : r.Movable base) : r.location + base ≤ maxOffset :=
  Nat.le_trans (Nat.add_le_add_right r.location_le_stop base) movable.stop_add_le

theorem movable_of_stop_add_le (fits : r.Fits) (stopLe : r.stop + base ≤ maxOffset) :
    r.Movable base := by
  rwa [stop_of_fits fits] at stopLe

/-- Moving adds to the location. -/
theorem location_shift (movable : r.Movable base) :
    (r.shift base).location = r.location + base := location_clamped movable.location_add_le

/-- Moving keeps the length. -/
theorem length_shift (base : Nat) (r : SourceRange) : (r.shift base).length = r.length :=
  length_clamped r.length_le

/-- Moving adds to the end, up to the largest offset. -/
theorem stop_shift (base : Nat) (r : SourceRange) :
    (r.shift base).stop = clampOffset (r.stop + base) := by
  unfold stop
  rw [length_shift]
  change clampOffset (clampOffset (r.location + base) + r.length) = _
  unfold clampOffset
  omega

theorem stop_shift_of_movable (movable : r.Movable base) : (r.shift base).stop = r.stop + base := by
  rw [stop_shift, clampOffset_of_le movable.stop_add_le]

theorem Movable.fits_shift (movable : r.Movable base) : (r.shift base).Fits := by
  unfold Fits
  rw [location_shift movable, length_shift]
  unfold Movable at movable
  omega

/-- A range that moves as a whole: all of `base` is added to its location, and its length
stays. -/
def ShiftsExactly (base : Nat) (r : SourceRange) : Prop :=
  (r.shift base).location = r.location + base ∧ (r.shift base).length = r.length

theorem Movable.shiftsExactly (movable : r.Movable base) : r.ShiftsExactly base :=
  ⟨location_shift movable, length_shift base r⟩

/-! ## Ranges made out of others -/

/-- The empty range at an offset moves with the offset. -/
theorem shift_emptyAt (base n : Nat) :
    (emptyAt n).shift base = emptyAt (clampOffset (n + base)) := by
  ext
  · change clampOffset (clampOffset n + base) = clampOffset (clampOffset (n + base))
    unfold clampOffset
    omega
  · rfl

/-- The empty range just behind a range moves with it. -/
theorem shift_emptyAt_stop (base : Nat) (r : SourceRange) :
    (emptyAt r.stop).shift base = emptyAt (r.shift base).stop := by
  rw [shift_emptyAt, stop_shift]

theorem movable_emptyAt {n : Nat} (movable : n + base ≤ maxOffset) : (emptyAt n).Movable base := by
  unfold Movable emptyAt
  rw [location_clamped (by omega), length_clamped (by omega)]
  omega

/-- The range between two offsets moves with them. -/
theorem shift_ofBounds {start stop : Nat} (startLe : start + base ≤ maxOffset)
    (stopLe : stop + base ≤ maxOffset) :
    (ofBounds start stop).shift base = ofBounds (start + base) (stop + base) := by
  ext
  · change clampOffset ((ofBounds start stop).location + base) = _
    rw [location_ofBounds (by omega), location_ofBounds startLe, clampOffset_of_le startLe]
  · rw [length_shift, length_ofBounds (by omega), length_ofBounds stopLe]
    omega

theorem movable_ofBounds {start stop : Nat} (startLe : start + base ≤ maxOffset)
    (stopLe : stop + base ≤ maxOffset) : (ofBounds start stop).Movable base := by
  unfold Movable
  rw [location_ofBounds (by omega), length_ofBounds (by omega)]
  omega

end Movable

/-! ## Envelopes -/

section Envelope

variable {base : Nat}

theorem movable_envelope {r s : SourceRange} (movable : r.Movable base)
    (movable' : s.Movable base) : (r.envelope s).Movable base :=
  movable_of_stop_add_le (fits_envelope r s) (by
    have := movable.stop_add_le
    have := movable'.stop_add_le
    rw [stop_envelope]
    omega)

theorem shift_envelope {r s : SourceRange} (movable : r.Movable base)
    (movable' : s.Movable base) :
    (r.envelope s).shift base = (r.shift base).envelope (s.shift base) := by
  have := movable.location_add_le
  have := movable.stop_add_le
  have := movable'.stop_add_le
  unfold envelope
  rw [shift_ofBounds (by omega) (by omega), location_shift movable, location_shift movable',
    stop_shift_of_movable movable, stop_shift_of_movable movable', Nat.add_min_add_right,
    Nat.add_max_add_right]

theorem foldl_envelope_map_shift {rs : List SourceRange} {r : SourceRange}
    (first : r.Movable base) (others : ∀ s ∈ rs, s.Movable base) :
    (rs.map (shift base)).foldl envelope (r.shift base) = (rs.foldl envelope r).shift base ∧
      (rs.foldl envelope r).Movable base := by
  induction rs generalizing r with
  | nil => exact ⟨rfl, first⟩
  | cons s rs ih =>
      have second := others s (List.mem_cons_self ..)
      rw [List.map_cons, List.foldl_cons, ← shift_envelope first second]
      exact ih (movable_envelope first second)
        fun t member => others t (List.mem_cons_of_mem _ member)

/-- **The envelope of ranges moves with them.** -/
theorem envelopeOf?_map_shift {rs : List SourceRange} (movable : ∀ r ∈ rs, r.Movable base) :
    envelopeOf? (rs.map (shift base)) = (envelopeOf? rs).map (shift base) ∧
      ∀ e ∈ envelopeOf? rs, e.Movable base := by
  cases rs with
  | nil => exact ⟨rfl, by simp [envelopeOf?]⟩
  | cons r rs =>
      obtain ⟨same, moved⟩ := foldl_envelope_map_shift (movable r (List.mem_cons_self ..))
        fun s member => movable s (List.mem_cons_of_mem _ member)
      refine ⟨congrArg some same, ?_⟩
      intro e found
      cases Option.some.inj (Option.mem_def.1 found)
      exact moved

end Envelope

end ProtocolFakes.SourceRange
