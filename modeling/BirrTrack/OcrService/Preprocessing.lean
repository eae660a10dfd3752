import BirrTrack.Foundation.Binary64

/-! # Small images

`prepare_image_for_paddle_ocr` enlarges an image with a side below 700 pixels, by a factor that
is rounded to a double, to sides that are cut to whole pixels. The shorter side becomes 700 or,
for some lengths, 699; a second pass then makes it 700.
-/

namespace BirrTrack.OcrService

def MIN_HEIGHT_PIXELS : ℕ := 700
def MIN_WIDTH_PIXELS : ℕ := 700

/-- `minimum / max(side, 1)` -/
def sideScale (minimum side : ℕ) : Option ℚ := Binary64.round ((minimum : ℚ) / max side 1)

/-- `max(int(side * scale), 1)`, none for an OverflowError. -/
def scaledSide (side : ℕ) (scale : ℚ) : Option ℕ := do
  let product ← Binary64.round ((← Binary64.round side) * scale)
  return max ⌊product⌋.toNat 1

/-- The height and the width that a small image is resized to. -/
def resizedSides (height width : ℕ) : Option (ℕ × ℕ) := do
  let heightScale ← sideScale MIN_HEIGHT_PIXELS height
  let widthScale ← sideScale MIN_WIDTH_PIXELS width
  let scaleFactor := max heightScale widthScale
  let resizedWidth ← scaledSide width scaleFactor
  let resizedHeight ← scaledSide height scaleFactor
  return (resizedHeight, resizedWidth)

/-! ## Images -/

/-- An image in three dimensions, or in two when it has no channels. The library keeps its sides
in 32 bits. -/
structure Image (Pixels : Type) where
  height : ℕ
  width : ℕ
  hasChannels : Bool
  pixels : Pixels
  height_lt : height < 2 ^ 31
  width_lt : width < 2 ^ 31

/-- What the image libraries do: `imdecode`, Pillow's decoder, `cvtColor` from gray and `resize`
to a height and a width. -/
structure ImageLibraries (Pixels : Type) where
  imdecode : List UInt8 → Option (Image Pixels)
  pillow : List UInt8 → Except Bool (Image Pixels)
  grayToBgr : Pixels → Pixels
  resize : Pixels → ℕ → ℕ → Option Pixels

/-- What the OCR route runs into. -/
inductive OcrFailure where
  | imageProcessingError (text : String)
  | ocrServiceError (text : String)
  | unexpected
  deriving DecidableEq

section Pipeline

variable {Pixels : Type} (libraries : ImageLibraries Pixels)

/-- `decode_image`; Pillow's failure is its `UnidentifiedImageError` or an `OSError`, or not. -/
def decodeImage (fileBytes : List UInt8) : Except OcrFailure (Image Pixels) :=
  if fileBytes = [] then .error (.imageProcessingError "Uploaded file is empty.")
  else
    match libraries.imdecode fileBytes with
    | some image => .ok image
    | none =>
        match libraries.pillow fileBytes with
        | .ok image => .ok image
        | .error true => .error (.imageProcessingError "Invalid or corrupted image file.")
        | .error false => .error .unexpected

/-- `cvtColor` for an image without channels. -/
def Image.toBgr (image : Image Pixels) : Image Pixels :=
  if image.hasChannels then image
  else { image with hasChannels := true, pixels := libraries.grayToBgr image.pixels }

/-- `cv2.resize`, which refuses sides beyond 32 bits. -/
def Image.resized (image : Image Pixels) (sides : ℕ × ℕ) : Except OcrFailure (Image Pixels) :=
  if fits : sides.1 < 2 ^ 31 ∧ sides.2 < 2 ^ 31 then
    match libraries.resize image.pixels sides.1 sides.2 with
    | some pixels => .ok ⟨sides.1, sides.2, image.hasChannels, pixels, fits.1, fits.2⟩
    | none => .error .unexpected
  else .error .unexpected

def prepareImageForPaddleOcr (image : Image Pixels) : Except OcrFailure (Image Pixels) :=
  if image.height * image.width = 0 then
    .error (.imageProcessingError "Image preprocessing failed due to empty input.")
  else
    let image := image.toBgr libraries
    if MIN_HEIGHT_PIXELS ≤ image.height ∧ MIN_WIDTH_PIXELS ≤ image.width then .ok image
    else
      match resizedSides image.height image.width with
      | some sides => image.resized libraries sides
      | none => .error .unexpected

end Pipeline

/-! ## One side -/

section Sides

theorem lt_of_le_two_pow {q : ℚ} {k : ℕ} (le : q ≤ 2 ^ k) (small : k < 1023) : q < 2 ^ 1023 :=
  le.trans_lt (pow_lt_pow_right₀ one_lt_two small)

variable {short side : ℕ} {scale : ℚ}

/-- The factor for a short side: above one, and close to the quotient. -/
theorem sideScale_spec (positive : 0 < short) (small : short < 700) :
    ∃ scale, sideScale 700 short = some scale ∧ 1 ≤ scale ∧
      |scale - 700 / short| ≤ 2 ^ (-53 : ℤ) * (700 / short) := by
  have above : (0 : ℚ) < short := by exact_mod_cast positive
  have one : (1 : ℚ) ≤ 700 / short := by
    rw [le_div_iff₀ above, one_mul]
    exact_mod_cast small.le
  have least : (1 : ℚ) ≤ short := by exact_mod_cast positive
  have bounded : (700 : ℚ) / short < 2 ^ 1023 := by
    refine @lt_of_le_two_pow _ 10 ((div_le_self (by norm_num) least).trans ?_) (by decide)
    norm_num
  obtain ⟨scale, rounded, error⟩ := Binary64.round_relative_error
    ((zpow_le_one_of_nonpos₀ one_le_two (by decide)).trans one) bounded
  have same : sideScale 700 short = some scale := by
    rw [sideScale, max_eq_left (Nat.one_le_iff_ne_zero.mpr positive.ne')]
    exact rounded
  obtain ⟨unit, le, rounded'⟩ := Binary64.round_mono zero_le_one one rounded
  have exact : Binary64.round 1 = some 1 := by decide +kernel
  rw [exact] at rounded'
  exact ⟨scale, same, Option.some.inj rounded' ▸ le, error⟩

/-- Two roundings move the scaled length by less than a thousandth of a pixel. -/
theorem exists_product (positive : 0 < short) (small : short < 700) (longer : short ≤ side)
    (fits : side < 2 ^ 31) (factor : sideScale 700 short = some scale) :
    ∃ product, Binary64.round (side * scale) = some product ∧ (side : ℚ) ≤ product ∧
      |product - side * (700 / short)| < 1 / 1000 := by
  obtain ⟨other, same, one, error⟩ := sideScale_spec positive small
  obtain rfl := Option.some.inj (same.symm.trans factor)
  have nonneg : (0 : ℚ) ≤ side := by positivity
  have least : (1 : ℚ) ≤ side := by exact_mod_cast positive.trans_le longer
  have bounded : (side : ℚ) ≤ 2 ^ 31 := by exact_mod_cast fits.le
  have quotient : (700 : ℚ) / short ≤ 700 :=
    div_le_self (by norm_num) (by exact_mod_cast positive)
  have unit : (2 : ℚ) ^ (-53 : ℤ) = 1 / 2 ^ 53 := by norm_num
  rw [unit] at error
  have scaleBound : other ≤ 701 := by
    have moved := (abs_le.mp error).2
    norm_num at moved quotient
    linarith
  have longer : (side : ℚ) ≤ side * other := le_mul_of_one_le_right nonneg one
  have scaledBound : (side : ℚ) * other ≤ 2 ^ 31 * 701 :=
    mul_le_mul bounded scaleBound (by linarith) (by positivity)
  have large : (side : ℚ) * other < 2 ^ 1023 := by
    refine @lt_of_le_two_pow _ 41 (scaledBound.trans ?_) (by decide)
    norm_num
  obtain ⟨product, rounded, productError⟩ := Binary64.round_relative_error
    ((zpow_le_one_of_nonpos₀ one_le_two (by decide)).trans (least.trans longer)) large
  have above : (side : ℚ) ≤ product := by
    obtain ⟨v, le, again⟩ := Binary64.round_mono nonneg longer rounded
    have exact := Binary64.representable_natCast (fits.trans (by norm_num))
    rw [exact] at again
    exact Option.some.inj again ▸ le
  have lengthBound : (side : ℚ) * (700 / short) ≤ 2 ^ 31 * 700 :=
    mul_le_mul bounded quotient (by positivity) (by positivity)
  have moved : |side * other - side * (700 / short)| ≤ 1 / 2 ^ 53 * (side * (700 / short)) := by
    rw [← mul_sub, abs_mul, abs_of_nonneg nonneg]
    calc (side : ℚ) * |other - 700 / short| ≤ side * (1 / 2 ^ 53 * (700 / short)) :=
          mul_le_mul_of_nonneg_left error nonneg
      _ = 1 / 2 ^ 53 * (side * (700 / short)) := by ring
  rw [unit] at productError
  refine ⟨product, rounded, above, ?_⟩
  calc |product - side * (700 / short)| ≤
        |product - side * other| + |side * other - side * (700 / short)| := abs_sub_le ..
    _ ≤ 1 / 2 ^ 53 * (side * other) + 1 / 2 ^ 53 * (side * (700 / short)) :=
        add_le_add productError moved
    _ ≤ 1 / 2 ^ 53 * (2 ^ 31 * 701) + 1 / 2 ^ 53 * (2 ^ 31 * 700) := by gcongr
    _ < 1 / 1000 := by norm_num

/-- The length of a side that is scaled so that a shorter one comes to 700 pixels: not below what
it was, and the exact length up to a pixel that is cut. -/
structure Enlarged (short side scaled : ℕ) : Prop where
  not_smaller : side ≤ scaled
  upper : (scaled : ℚ) < side * (700 / short) + 1 / 1000
  lower : side * (700 / short) < (scaled : ℚ) + 1 + 1 / 1000

theorem scaledSide_spec (positive : 0 < short) (small : short < 700) (longer : short ≤ side)
    (fits : side < 2 ^ 31) (factor : sideScale 700 short = some scale) :
    ∃ scaled, scaledSide side scale = some scaled ∧ Enlarged short side scaled := by
  obtain ⟨product, rounded, above, error⟩ := exists_product positive small longer fits factor
  have exact : Binary64.round (side : ℚ) = some (side : ℚ) :=
    Binary64.representable_natCast (fits.trans (by norm_num))
  have floor : (side : ℤ) ≤ ⌊product⌋ := Int.le_floor.mpr (by exact_mod_cast above)
  have whole : max ⌊product⌋.toNat 1 = ⌊product⌋.toNat := by omega
  have cast : ((⌊product⌋.toNat : ℕ) : ℚ) = ⌊product⌋ := by
    have toNat : (⌊product⌋.toNat : ℤ) = ⌊product⌋ := by omega
    exact_mod_cast congrArg (Int.cast : ℤ → ℚ) toNat
  have near := abs_lt.mp error
  refine ⟨⌊product⌋.toNat, ?_, by omega, ?_, ?_⟩
  · simp only [scaledSide, exact, rounded, Option.bind_eq_bind, Option.bind_some, whole,
      Option.pure_def]
  · rw [cast]
    linarith [Int.floor_le product, near.2]
  · rw [cast]
    linarith [Int.lt_floor_add_one product, near.1]

/-- No side falls short of 699 pixels. -/
theorem Enlarged.large_enough {scaled : ℕ} (positive : 0 < short) (longer : short ≤ side)
    (enlarged : Enlarged short side scaled) : 699 ≤ scaled := by
  have above : (0 : ℚ) < short := by exact_mod_cast positive
  have length : (700 : ℚ) ≤ side * (700 / short) := by
    calc (700 : ℚ) = short * (700 / short) := (mul_div_cancel₀ _ above.ne').symm
      _ ≤ side * (700 / short) := by gcongr
  have lower := enlarged.lower
  have : (698 : ℚ) < scaled := by linarith
  exact_mod_cast this

/-- The short side itself does not exceed 700. -/
theorem Enlarged.short_side {scaled : ℕ} (positive : 0 < short)
    (enlarged : Enlarged short short scaled) : scaled ≤ 700 := by
  have above : (0 : ℚ) < short := by exact_mod_cast positive
  have upper := enlarged.upper
  rw [mul_div_cancel₀ _ above.ne'] at upper
  have : (scaled : ℚ) < 701 := by linarith
  exact Nat.lt_succ_iff.mp (by exact_mod_cast this)

theorem sideScale_antitone {long : ℕ} (le : short ≤ long)
    (factor : sideScale 700 short = some scale) :
    ∃ other ≤ scale, sideScale 700 long = some other := by
  refine Binary64.round_mono (by positivity) ?_ factor
  have above : (0 : ℚ) < (max short 1 : ℕ) := by
    exact_mod_cast Nat.one_pos.trans_le (le_max_right short 1)
  exact div_le_div_of_nonneg_left (by norm_num) above (by exact_mod_cast max_le_max_right 1 le)

end Sides

/-! ## Both sides -/

section Images

variable {height width : ℕ}

/-- The larger factor is that of the shorter side. -/
theorem resizedSides_eq {scale : ℚ}
    (factor : sideScale 700 (min height width) = some scale) :
    resizedSides height width = do
      let resizedWidth ← scaledSide width scale
      let resizedHeight ← scaledSide height scale
      return (resizedHeight, resizedWidth) := by
  have larger : ∃ heightScale widthScale, sideScale 700 height = some heightScale ∧
      sideScale 700 width = some widthScale ∧ max heightScale widthScale = scale := by
    rcases le_total height width with le | le
    · rw [min_eq_left le] at factor
      obtain ⟨other, below, found⟩ := sideScale_antitone le factor
      exact ⟨scale, other, factor, found, max_eq_left below⟩
    · rw [min_eq_right le] at factor
      obtain ⟨other, below, found⟩ := sideScale_antitone le factor
      exact ⟨other, scale, found, factor, max_eq_right below⟩
  obtain ⟨heightScale, widthScale, found, found', same⟩ := larger
  simp only [resizedSides, MIN_HEIGHT_PIXELS, MIN_WIDTH_PIXELS, found, found', same,
    Option.bind_eq_bind, Option.bind_some]

theorem resizedSides_spec (positive : 0 < min height width) (small : min height width < 700)
    (heightFits : height < 2 ^ 31) (widthFits : width < 2 ^ 31) :
    ∃ resizedHeight resizedWidth, resizedSides height width = some (resizedHeight, resizedWidth) ∧
      Enlarged (min height width) height resizedHeight ∧
      Enlarged (min height width) width resizedWidth := by
  obtain ⟨scale, factor, -⟩ := sideScale_spec positive small
  obtain ⟨resizedHeight, scaledHeight, tall⟩ :=
    scaledSide_spec positive small (min_le_left _ _) heightFits factor
  obtain ⟨resizedWidth, scaledWidth, wide⟩ :=
    scaledSide_spec positive small (min_le_right _ _) widthFits factor
  refine ⟨resizedHeight, resizedWidth, ?_, tall, wide⟩
  simp only [resizedSides_eq factor, scaledHeight, scaledWidth, Option.bind_eq_bind,
    Option.bind_some, Option.pure_def]

/-- An image that came to 699 pixels comes to 700 in a second pass. -/
theorem resizedSides_699 (short : min height width = 699) (heightFits : height < 2 ^ 31)
    (widthFits : width < 2 ^ 31) {resizedHeight resizedWidth : ℕ}
    (resized : resizedSides height width = some (resizedHeight, resizedWidth)) :
    700 ≤ resizedHeight ∧ 700 ≤ resizedWidth := by
  obtain ⟨scale, factor, -⟩ := sideScale_spec (by decide : 0 < 699) (by decide)
  have grown : ∀ side scaled, 699 ≤ side → side < 2 ^ 31 → scaledSide side scale = some scaled →
      700 ≤ scaled := by
    intro side scaled longer fits found
    rcases longer.eq_or_lt with rfl | above
    · have exact : (sideScale 700 699).bind (scaledSide 699) = some 700 := by decide +kernel
      rw [factor, Option.bind_some, found] at exact
      exact (Option.some.inj exact).ge
    · obtain ⟨other, found', enlarged⟩ :=
        scaledSide_spec (by decide) (by decide) longer fits factor
      obtain rfl := Option.some.inj (found'.symm.trans found)
      exact above.trans_le enlarged.not_smaller
  rw [resizedSides_eq (short ▸ factor)] at resized
  simp only [Option.bind_eq_bind, Option.pure_def, Option.bind_eq_some_iff, Option.some.injEq,
    Prod.mk.injEq] at resized
  obtain ⟨wide, foundWidth, tall, foundHeight, rfl, rfl⟩ := resized
  exact ⟨grown height tall (by omega) heightFits foundHeight,
    grown width wide (by omega) widthFits foundWidth⟩

end Images

/-! ## The pipeline -/

section Prepared

variable {Pixels : Type} {libraries : ImageLibraries Pixels} {image prepared : Image Pixels}

theorem Image.toBgr_sides : (image.toBgr libraries).height = image.height ∧
    (image.toBgr libraries).width = image.width := by
  unfold toBgr
  split <;> exact ⟨rfl, rfl⟩

theorem Image.toBgr_hasChannels : (image.toBgr libraries).hasChannels = true := by
  unfold toBgr
  split
  next channels => exact channels
  next => rfl

theorem Image.toBgr_of_hasChannels (channels : image.hasChannels = true) :
    image.toBgr libraries = image := if_pos channels

theorem Image.resized_eq_ok {sides : ℕ × ℕ} (ok : image.resized libraries sides = .ok prepared) :
    prepared.height = sides.1 ∧ prepared.width = sides.2 ∧
      prepared.hasChannels = image.hasChannels := by
  unfold resized at ok
  split at ok
  next =>
    split at ok
    next =>
      cases ok
      exact ⟨rfl, rfl, rfl⟩
    next => cases ok
  next => cases ok

/-- An image whose sides are both large enough. -/
def Image.IsLarge (image : Image Pixels) : Prop :=
  MIN_HEIGHT_PIXELS ≤ image.height ∧ MIN_WIDTH_PIXELS ≤ image.width

/-- What the preparation does with an image that is not empty. -/
theorem prepare_cases (ok : prepareImageForPaddleOcr libraries image = .ok prepared) :
    0 < min image.height image.width ∧ prepared.hasChannels = true ∧
      ((image.IsLarge ∧ prepared = image.toBgr libraries) ∨
        ¬ image.IsLarge ∧
          resizedSides image.height image.width = some (prepared.height, prepared.width)) := by
  unfold prepareImageForPaddleOcr at ok
  split at ok
  next => cases ok
  next nonempty =>
    have positive : 0 < min image.height image.width := by
      rw [Nat.mul_eq_zero, not_or] at nonempty
      omega
    obtain ⟨height, width⟩ := @Image.toBgr_sides Pixels libraries image
    simp only [height, width] at ok
    refine ⟨positive, ?_⟩
    split at ok
    next large =>
      cases ok
      exact ⟨Image.toBgr_hasChannels, Or.inl ⟨large, rfl⟩⟩
    next small =>
      split at ok
      next sides found =>
        obtain ⟨resizedHeight, resizedWidth, channels⟩ := Image.resized_eq_ok ok
        refine ⟨channels.trans Image.toBgr_hasChannels, Or.inr ⟨small, ?_⟩⟩
        rw [found, resizedHeight, resizedWidth]
      next => cases ok

/-- A large image with channels is left as it is. -/
theorem prepare_of_isLarge (large : image.IsLarge) (channels : image.hasChannels = true) :
    prepareImageForPaddleOcr libraries image = .ok image := by
  have positive : image.height * image.width ≠ 0 :=
    Nat.mul_ne_zero (fun zero => by cases zero ▸ large.1) fun zero => by cases zero ▸ large.2
  unfold prepareImageForPaddleOcr
  rw [if_neg positive, Image.toBgr_of_hasChannels channels]
  exact if_pos large

/-- A small image is enlarged until its shorter side has 700 pixels, or 699, and its longer one
keeps the proportion up to a pixel; any other keeps its sides. Either way it gets channels. -/
theorem prepare_spec (ok : prepareImageForPaddleOcr libraries image = .ok prepared) :
    prepared.hasChannels = true ∧ 699 ≤ min prepared.height prepared.width ∧
      (image.IsLarge → prepared = image.toBgr libraries) ∧
      (¬ image.IsLarge → min prepared.height prepared.width ≤ 700 ∧
        Enlarged (min image.height image.width) image.height prepared.height ∧
        Enlarged (min image.height image.width) image.width prepared.width) := by
  obtain ⟨positive, channels, cases⟩ := prepare_cases ok
  refine ⟨channels, ?_⟩
  rcases cases with ⟨large, rfl⟩ | ⟨small, resized⟩
  · refine ⟨?_, fun _ => rfl, fun small => absurd large small⟩
    obtain ⟨height, width⟩ := @Image.toBgr_sides Pixels libraries image
    have tall : 700 ≤ image.height := large.1
    have wide : 700 ≤ image.width := large.2
    omega
  · have short : min image.height image.width < 700 := by
      rw [min_lt_iff]
      by_contra both
      rw [not_or, not_lt, not_lt] at both
      exact small both
    obtain ⟨height, width, resized', tall, wide⟩ :=
      resizedSides_spec positive short image.height_lt image.width_lt
    rw [resized, Option.some_inj, Prod.mk.injEq] at resized'
    obtain ⟨rfl, rfl⟩ := resized'
    refine ⟨le_min (tall.large_enough positive (min_le_left _ _))
      (wide.large_enough positive (min_le_right _ _)), fun large => absurd large small,
      fun _ => ⟨?_, tall, wide⟩⟩
    rcases le_total image.height image.width with le | le
    · rw [min_eq_left le] at tall positive
      exact (min_le_left _ _).trans (tall.short_side positive)
    · rw [min_eq_right le] at wide positive
      exact (min_le_right _ _).trans (wide.short_side positive)

/-- What two passes make of an image a third one leaves as it is. -/
theorem prepare_final {again : Image Pixels}
    (once : prepareImageForPaddleOcr libraries image = .ok prepared)
    (twice : prepareImageForPaddleOcr libraries prepared = .ok again) :
    prepareImageForPaddleOcr libraries again = .ok again := by
  obtain ⟨-, channels, cases⟩ := prepare_cases twice
  refine prepare_of_isLarge ?_ channels
  obtain ⟨-, least, -, -⟩ := prepare_spec once
  rcases cases with ⟨large, rfl⟩ | ⟨small, resized⟩
  · obtain ⟨height, width⟩ := @Image.toBgr_sides Pixels libraries prepared
    rwa [Image.IsLarge, height, width]
  · have short : min prepared.height prepared.width = 699 := by
      have : ¬ (700 ≤ prepared.height ∧ 700 ≤ prepared.width) := small
      omega
    exact resizedSides_699 short prepared.height_lt prepared.width_lt resized

end Prepared

/-! ## Samples -/

def sampleImage : Image Unit := ⟨79, 100, false, (), by decide, by decide⟩

/-- What a pass makes of it. -/
def sampleEnlarged : Image Unit := ⟨699, 886, true, (), by decide, by decide⟩

/-- Libraries that decode every file to it. -/
def sampleLibraries : ImageLibraries Unit where
  imdecode _ := some sampleImage
  pillow _ := .error true
  grayToBgr := id
  resize _ _ _ := some ()

theorem prepare_sampleImage :
    prepareImageForPaddleOcr sampleLibraries sampleImage = .ok sampleEnlarged := by
  have sides : resizedSides 79 100 = some (699, 886) := by decide +kernel
  simp only [prepareImageForPaddleOcr, Image.toBgr_sides, sampleImage, sides]
  rfl

theorem prepare_sampleEnlarged :
    prepareImageForPaddleOcr sampleLibraries sampleEnlarged =
      .ok ⟨700, 887, true, (), by decide, by decide⟩ := by
  have sides : resizedSides 699 886 = some (700, 887) := by decide +kernel
  simp only [prepareImageForPaddleOcr, Image.toBgr_sides, sampleEnlarged, sides]
  rfl

/-- The shorter side may come to 699 pixels. -/
theorem sampleImage_spec : 699 ≤ min sampleEnlarged.height sampleEnlarged.width :=
  (prepare_spec prepare_sampleImage).2.1

theorem sampleImage_final : prepareImageForPaddleOcr sampleLibraries
    ⟨700, 887, true, (), by decide, by decide⟩ =
      .ok ⟨700, 887, true, (), by decide, by decide⟩ :=
  prepare_final prepare_sampleImage prepare_sampleEnlarged

end BirrTrack.OcrService
