import RasterEdit.Proofs.Edit.Recolouring
import RasterEdit.Proofs.Raster.Mirror
import RasterEdit.Proofs.Session.Run

/-!
# Runs of flips

Without an output limit a flip always makes a new raster, and a run of flips ends with the first
raster seen in the mirror of their parities. The order of the flips is lost.
-/

set_option autoImplicit false

namespace RasterEdit

theorem Raster.flip_mirror {settings : Settings} (free : Budget.limit settings none = .ok 0)
    (direction : Flip) (r : Raster) :
    ∃ entry, r.flip settings direction = .ok (.produced (r.mirror (.ofFlip direction)) entry) := by
  simp only [Raster.flip, produce, Budget.check_of_no_limit free, Result.ok_bind, mirror_ofFlip]
  exact ⟨_, rfl⟩

namespace Session

/-- Flips as the steps of a run. -/
def flipSteps (flips : List Flip) : List (Result Step) :=
  flips.map fun direction => .ok (.edit (.flip direction))

theorem step_flip (s : Session) (free : Budget.limit s.settings none = .ok 0)
    (direction : Flip) : ∃ entry,
      s.step (.ok (.edit (.flip direction))) =
        (s.replace (s.current.raster.mirror (.ofFlip direction)),
          .ok (.fresh (s.current.raster.mirror (.ofFlip direction)), [entry])) := by
  obtain ⟨entry, flipped⟩ := s.current.raster.flip_mirror free direction
  refine ⟨entry, ?_⟩
  rw [step_edit, Edit.apply, flipped]

/-- The invariant of a run of flips: what is left to do is the mirror of the flips that are left. -/
theorem run_flips {s : Session} (free : Budget.limit s.settings none = .ok 0)
    (flips : List Flip) :
    (s.after (flipSteps flips)).current.raster = s.current.raster.mirror (.ofFlips flips) ∧
      ∀ answer ∈ s.run (flipSteps flips), ∃ after entries,
        answer = .ok (.fresh after, entries) := by
  induction flips generalizing s with
  | nil =>
    rw [Mirror.ofFlips_nil, Raster.mirror_none]
    exact ⟨rfl, fun answer member => absurd member List.not_mem_nil⟩
  | cons direction flips ih =>
    obtain ⟨entry, taken⟩ := s.step_flip free direction
    obtain ⟨ends, answers⟩ := ih (s := s.replace (s.current.raster.mirror (.ofFlip direction))) free
    have first : s.run (flipSteps (direction :: flips)) =
        (s.step (.ok (.edit (.flip direction)))).2 ::
          (s.step (.ok (.edit (.flip direction)))).1.run (flipSteps flips) := rfl
    have last : s.after (flipSteps (direction :: flips)) =
        (s.step (.ok (.edit (.flip direction)))).1.after (flipSteps flips) := rfl
    rw [first, last, taken]
    refine ⟨ends.trans ?_, ?_⟩
    · rw [Mirror.ofFlips_cons]
      exact s.current.raster.mirror_mirror ..
    · intro answer member
      rcases List.mem_cons.mp member with rfl | later
      · exact ⟨_, _, rfl⟩
      · exact answers answer later

/-- Where no limit is in force, every step of a run of flips makes a new raster, and the last one
has the layout, the samples' kind, the axes and the size of the first. Pixel `(row, col)` comes, in
every channel, from the row counted from the bottom if the number of vertical flips is odd, and from
the column counted from the right if that of horizontal flips is odd. So flips with the same
parities end alike, and even numbers of both give the first raster back. -/
theorem flips_follow_parities {settings : Settings} (free : Budget.limit settings none = .ok 0)
    (r : Raster) (flips : List Flip) :
    let last := ((start settings r).after (flipSteps flips)).current.raster
    (∀ answer ∈ (start settings r).run (flipSteps flips), ∃ after entries,
      answer = .ok (.fresh after, entries)) ∧
    (last.layout = r.layout ∧ last.kind = r.kind ∧ last.channels = r.channels ∧
      last.toBlock.shape = r.toBlock.shape ∧ last.size = r.size) ∧
    (∀ {row col channel : Nat}, row < r.height → col < r.width → channel < r.channels →
      last.sampleAt row col channel =
        r.sampleAt (if flips.count .vertical % 2 = 1 then r.height - 1 - row else row)
          (if flips.count .horizontal % 2 = 1 then r.width - 1 - col else col) channel) ∧
    (∀ others : List Flip, others.count .horizontal % 2 = flips.count .horizontal % 2 →
      others.count .vertical % 2 = flips.count .vertical % 2 →
      ((start settings r).after (flipSteps others)).current.raster = last) ∧
    (flips.count .horizontal % 2 = 0 → flips.count .vertical % 2 = 0 → last = r) := by
  intro last
  have free' : Budget.limit (start settings r).settings none = .ok 0 := free
  obtain ⟨ends, answers⟩ := run_flips free' flips
  have last_eq : last = r.mirror (.ofFlips flips) := ends
  refine ⟨answers, ?_, ?_, ?_, ?_⟩
  · rw [last_eq]
    exact ⟨r.layout_rearrange _, r.kind_rearrange _, r.channels_rearrange _, r.shape_mirror _,
      r.size_mirror _⟩
  · intro row col channel hr hc hk
    rw [last_eq, r.sampleAt_mirror _ hr hc hk]
    simp [Mirror.row, Mirror.column, Mirror.ofFlips, Raster.width, Raster.height]
  · intro others horizontal vertical
    rw [(run_flips free' others).1, last_eq, Mirror.ofFlips, horizontal, vertical]
    rfl
  · intro horizontal vertical
    rw [last_eq, Mirror.ofFlips, horizontal, vertical]
    exact r.mirror_none

theorem flips_follow_parities_upside_down :
    let r : Raster := .custom .int16 (.stacked 2 Nat.two_pos)
      ⟨3, 2, #[#v[1, 2], #v[3, 4], #v[5, 6], #v[7, 8], #v[9, 10], #v[11, 12]], rfl⟩
    let last := ((start .default r).after
      (flipSteps [.horizontal, .vertical, .horizontal])).current.raster
    Budget.limit .default none = .ok 0 ∧ last.sampleAt 0 2 1 = 12 ∧
      ((start .default r).after (flipSteps [.vertical])).current.raster = last := by
  intro r last
  have free : Budget.limit .default none = .ok 0 := rfl
  obtain ⟨-, -, pixels, alike, -⟩ :=
    flips_follow_parities free r [.horizontal, .vertical, .horizontal]
  exact ⟨free, pixels (by decide) (by decide) (by decide), alike [.vertical] rfl rfl⟩

end Session

end RasterEdit
