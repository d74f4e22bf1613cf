import ProtocolFakes.SourceRange

/-!
# Ends and envelopes of ranges

A range fits when its end is an offset.  Its end is then where its location and
length say, and nothing is clamped.

**Envelopes.** The envelope of a list starts at the least location and ends at
the greatest end (`min?_location_of_envelopeOf?`, `max?_stop_of_envelopeOf?`), and the
rest follows from that.  It encloses every range of the list, and every range that
encloses them encloses it.  Of ranges in order it takes the location of the first and
the end of the last (`envelopeOf?_of_pairwise`).

No range of the list has to fit.  The envelope of two ranges or more fits all the same,
and a range that fits is known by its ends, so the order of the list does not matter.

Main theorem: `envelopeOf?_isLeast`.
-/

namespace ProtocolFakes.SourceRange

set_option autoImplicit false

/-! ## Ranges that fit -/

/-- A range whose end is an offset. -/
def Fits (r : SourceRange) : Prop := r.location + r.length ≤ maxOffset

instance (r : SourceRange) : Decidable r.Fits := inferInstanceAs (Decidable (_ ≤ _))

theorem stop_of_fits {r : SourceRange} (fits : r.Fits) : r.stop = r.location + r.length :=
  clampOffset_of_le fits

theorem isNone_stop?_iff (r : SourceRange) : r.stop?.isNone = true ↔ ¬ r.Fits := by
  unfold stop? Fits
  split <;> simp_all

theorem stop?_of_fits {r : SourceRange} (fits : r.Fits) :
    r.stop? = some (r.location + r.length) := if_pos fits

theorem stop_le (r : SourceRange) : r.stop ≤ maxOffset := clampOffset_le _

theorem location_le_stop (r : SourceRange) : r.location ≤ r.stop :=
  Nat.le_min.2 ⟨Nat.le_add_right .., r.location_le⟩

theorem encloses_iff {outer inner : SourceRange} :
    outer.encloses inner = true ↔
      outer.location ≤ inner.location ∧ inner.stop ≤ outer.stop := by
  simp [encloses]

/-! ## Ranges between two offsets -/

section OfBounds

variable {start stop : Nat}

theorem location_ofBounds (startLe : start ≤ maxOffset) :
    (ofBounds start stop).location = start := clampOffset_of_le startLe

theorem length_ofBounds (stopLe : stop ≤ maxOffset) :
    (ofBounds start stop).length = stop - start :=
  clampOffset_of_le (Nat.le_trans (Nat.sub_le ..) stopLe)

variable (startLe : start ≤ maxOffset) (stopLe : stop ≤ maxOffset)
include startLe stopLe

theorem fits_ofBounds : (ofBounds start stop).Fits := by
  unfold Fits
  rw [location_ofBounds startLe, length_ofBounds stopLe]
  omega

/-- A range ends at its upper bound, unless it is empty behind it. -/
theorem stop_ofBounds : (ofBounds start stop).stop = max start stop := by
  rw [stop_of_fits (fits_ofBounds startLe stopLe), location_ofBounds startLe,
    length_ofBounds stopLe]
  omega

end OfBounds

/-- A range that fits is the one between its ends. -/
theorem ofBounds_of_fits {r : SourceRange} (fits : r.Fits) : ofBounds r.location r.stop = r := by
  refine SourceRange.ext (location_ofBounds r.location_le) ?_
  rw [length_ofBounds r.stop_le, stop_of_fits fits, Nat.add_sub_cancel_left]

/-! ## Ranges of a given length -/

section Clamped

variable {location length : Nat}

theorem location_clamped (locationLe : location ≤ maxOffset) :
    (clamped location length).location = location := clampOffset_of_le locationLe

theorem length_clamped (lengthLe : length ≤ maxOffset) :
    (clamped location length).length = length := clampOffset_of_le lengthLe

variable (fits : location + length ≤ maxOffset)
include fits

theorem fits_clamped : (clamped location length).Fits := by
  unfold Fits
  rwa [location_clamped (by omega), length_clamped (by omega)]

theorem stop_clamped : (clamped location length).stop = location + length := by
  rw [stop_of_fits (fits_clamped fits), location_clamped (by omega), length_clamped (by omega)]

end Clamped

/-! ## Envelopes -/

theorem location_envelope (r s : SourceRange) :
    (r.envelope s).location = min r.location s.location :=
  location_ofBounds (Nat.le_trans (Nat.min_le_left ..) r.location_le)

theorem fits_envelope (r s : SourceRange) : (r.envelope s).Fits :=
  fits_ofBounds (Nat.le_trans (Nat.min_le_left ..) r.location_le)
    (Nat.max_le.2 ⟨r.stop_le, s.stop_le⟩)

theorem stop_envelope (r s : SourceRange) : (r.envelope s).stop = max r.stop s.stop := by
  have hr := r.location_le_stop
  have hs := s.location_le_stop
  rw [envelope, stop_ofBounds (Nat.le_trans (Nat.min_le_left ..) r.location_le)
    (Nat.max_le.2 ⟨r.stop_le, s.stop_le⟩)]
  omega

/-- Ranges that fit and enclose each other are equal. -/
theorem eq_of_encloses {r s : SourceRange} (fits : r.Fits) (fits' : s.Fits)
    (inside : r.encloses s = true) (around : s.encloses r = true) : r = s := by
  obtain ⟨before, behind⟩ := encloses_iff.1 inside
  obtain ⟨before', behind'⟩ := encloses_iff.1 around
  rw [← ofBounds_of_fits fits, ← ofBounds_of_fits fits', Nat.le_antisymm before before',
    Nat.le_antisymm behind behind']

/-- What the envelope of two ranges takes from both, the envelope of a list takes from all. -/
theorem foldl_envelope {part : SourceRange → Nat} {pick : Nat → Nat → Nat}
    (step : ∀ r s : SourceRange, part (r.envelope s) = pick (part r) (part s))
    (rs : List SourceRange) (r : SourceRange) :
    part (rs.foldl envelope r) = (rs.map part).foldl pick (part r) := by
  rw [List.foldl_map]
  exact (List.foldl_hom part fun r s => (step r s).symm).symm

section EnvelopeOf

variable {rs : List SourceRange} {e : SourceRange}

theorem exists_envelopeOf? (nonempty : rs ≠ []) : ∃ e, envelopeOf? rs = some e := by
  obtain ⟨r, rs, rfl⟩ := List.exists_cons_of_ne_nil nonempty
  exact ⟨_, rfl⟩

/-- **An envelope starts at the least location.** -/
theorem min?_location_of_envelopeOf? (found : envelopeOf? rs = some e) :
    (rs.map location).min? = some e.location := by
  cases rs with
  | nil => cases found
  | cons r rs =>
      cases found
      rw [List.map_cons, List.min?_cons', foldl_envelope location_envelope]

/-- **An envelope ends at the greatest end.** -/
theorem max?_stop_of_envelopeOf? (found : envelopeOf? rs = some e) :
    (rs.map stop).max? = some e.stop := by
  cases rs with
  | nil => cases found
  | cons r rs =>
      cases found
      rw [List.map_cons, List.max?_cons', foldl_envelope stop_envelope]

/-- **An envelope encloses every range of its list.** -/
theorem encloses_of_envelopeOf? {r : SourceRange} (found : envelopeOf? rs = some e)
    (member : r ∈ rs) : e.encloses r = true := by
  have least := List.min?_eq_some_iff.1 (min?_location_of_envelopeOf? found)
  have greatest := List.max?_eq_some_iff.1 (max?_stop_of_envelopeOf? found)
  exact encloses_iff.2
    ⟨least.2 _ (List.mem_map_of_mem member), greatest.2 _ (List.mem_map_of_mem member)⟩

/-- An offset before every range of a list is before their envelope. -/
theorem le_location_of_envelopeOf? {a : Nat} (found : envelopeOf? rs = some e)
    (below : ∀ r ∈ rs, a ≤ r.location) : a ≤ e.location := by
  have least := List.min?_eq_some_iff.1 (min?_location_of_envelopeOf? found)
  obtain ⟨r, member, same⟩ := List.mem_map.1 least.1
  exact same ▸ below r member

/-- An offset behind every range of a list is behind their envelope. -/
theorem stop_le_of_envelopeOf? {b : Nat} (found : envelopeOf? rs = some e)
    (above : ∀ r ∈ rs, r.stop ≤ b) : e.stop ≤ b := by
  have greatest := List.max?_eq_some_iff.1 (max?_stop_of_envelopeOf? found)
  obtain ⟨r, member, same⟩ := List.mem_map.1 greatest.1
  exact same ▸ above r member

/-- A range around every range of a list is around their envelope. -/
theorem encloses_envelopeOf? {outer : SourceRange} (found : envelopeOf? rs = some e)
    (around : ∀ r ∈ rs, outer.encloses r = true) : outer.encloses e = true :=
  encloses_iff.2
    ⟨le_location_of_envelopeOf? found fun r member => (encloses_iff.1 (around r member)).1,
      stop_le_of_envelopeOf? found fun r member => (encloses_iff.1 (around r member)).2⟩

/-- The envelope of two ranges or more fits, whatever they are. -/
theorem fits_of_envelopeOf? (several : 2 ≤ rs.length) (found : envelopeOf? rs = some e) :
    e.Fits := by
  match rs, several, found with
  | r :: s :: rs, _, found =>
      cases found
      exact List.foldlRecOn rs envelope (fits_envelope r s) fun e _ t _ => fits_envelope e t

/-- **An envelope does not depend on the order of its ranges.**  Two envelopes of the same ranges
enclose each other, and both fit. -/
theorem envelopeOf?_of_perm {rs' : List SourceRange} (several : 2 ≤ rs.length)
    (same : rs.Perm rs') (found : envelopeOf? rs = some e) : envelopeOf? rs' = some e := by
  have several' : 2 ≤ rs'.length := same.length_eq ▸ several
  obtain ⟨e', found'⟩ := exists_envelopeOf? (List.ne_nil_of_length_pos (by omega : 0 < rs'.length))
  have inside : e.encloses e' = true := encloses_envelopeOf? found' fun r member =>
    encloses_of_envelopeOf? found (same.mem_iff.2 member)
  have around : e'.encloses e = true := encloses_envelopeOf? found fun r member =>
    encloses_of_envelopeOf? found' (same.mem_iff.1 member)
  rw [found', eq_of_encloses (fits_of_envelopeOf? several found)
    (fits_of_envelopeOf? several' found') inside around]

/-- The envelope of ranges in order goes from the start of the first to the end of the
last. -/
theorem envelopeOf?_of_pairwise (ordered : rs.Pairwise fun r s => r.stop ≤ s.location)
    (found : envelopeOf? rs = some e) :
    (∀ r ∈ rs.head?, e.location = r.location) ∧ ∀ r ∈ rs.getLast?, e.stop = r.stop := by
  have inside : ∀ r ∈ rs, e.location ≤ r.location ∧ r.stop ≤ e.stop := fun r member =>
    encloses_iff.1 (encloses_of_envelopeOf? found member)
  constructor
  · intro r first
    obtain ⟨rs, rfl⟩ := List.head?_eq_some_iff.1 first
    refine Nat.le_antisymm (inside r (List.mem_cons_self ..)).1 ?_
    refine le_location_of_envelopeOf? found ?_
    intro s member
    rcases List.mem_cons.1 member with rfl | later
    · exact Nat.le_refl _
    · exact Nat.le_trans r.location_le_stop ((List.pairwise_cons.1 ordered).1 s later)
  · intro r last
    obtain ⟨rs, rfl⟩ := List.getLast?_eq_some_iff.1 last
    refine Nat.le_antisymm (stop_le_of_envelopeOf? found ?_) (inside r (by simp)).2
    intro s member
    rcases List.mem_append.1 member with earlier | itself
    · have apart := (List.pairwise_append.1 ordered).2.2 s earlier r (List.mem_singleton_self r)
      exact Nat.le_trans apart r.location_le_stop
    · exact Nat.le_of_eq (congrArg stop (List.mem_singleton.1 itself))

end EnvelopeOf

/-- **The envelope of ranges is the least range that encloses them all.**  It starts at the least
location and ends at the greatest end, also where ends are clamped.  The envelope of two ranges or
more ends at an offset, and their order does not matter. -/
theorem envelopeOf?_isLeast {rs : List SourceRange} (nonempty : rs ≠ []) :
    ∃ e, envelopeOf? rs = some e ∧
      (rs.map location).min? = some e.location ∧ (rs.map stop).max? = some e.stop ∧
      (∀ r ∈ rs, e.encloses r = true) ∧
      (∀ outer : SourceRange, (∀ r ∈ rs, outer.encloses r = true) → outer.encloses e = true) ∧
      (2 ≤ rs.length →
        e.stop? = some e.stop ∧ ∀ rs', rs.Perm rs' → envelopeOf? rs' = some e) := by
  obtain ⟨e, found⟩ := exists_envelopeOf? nonempty
  refine ⟨e, found, min?_location_of_envelopeOf? found, max?_stop_of_envelopeOf? found,
    fun r member => encloses_of_envelopeOf? found member,
    fun outer around => encloses_envelopeOf? found around, ?_⟩
  intro several
  have fits := fits_of_envelopeOf? several found
  refine ⟨?_, fun rs' same => envelopeOf?_of_perm several same found⟩
  rw [stop?_of_fits fits, stop_of_fits fits]

/-- Two ranges that run past the largest offset, and one between their locations. -/
def overrunning : List SourceRange := [.clamped maxOffset 1, .clamped 5 maxOffset, .clamped 7 2]

theorem envelopeOf?_isLeast_overrunning :
    overrunning ≠ [] ∧ 2 ≤ overrunning.length ∧
      (overrunning.map location).min? = some 5 ∧ (overrunning.map stop).max? = some maxOffset ∧
      envelopeOf? overrunning.reverse = some (.clamped 5 (maxOffset - 5)) := by
  have nonempty : overrunning ≠ [] := by decide
  have several : 2 ≤ overrunning.length := by decide
  obtain ⟨e, found, least, greatest, -, -, later⟩ := envelopeOf?_isLeast nonempty
  have here : some e = some (.clamped 5 (maxOffset - 5)) := by
    rw [← found]
    decide
  obtain rfl := Option.some.inj here
  exact ⟨nonempty, several, least, greatest,
    (later several).2 _ overrunning.reverse_perm.symm⟩

-- The envelope of one range is that range, even if it runs past the largest offset.
example : (envelopeOf? [.clamped maxOffset 1]).map stop? = some none := by decide

end ProtocolFakes.SourceRange
