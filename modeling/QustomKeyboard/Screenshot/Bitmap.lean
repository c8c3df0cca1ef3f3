import Mathlib
import QustomKeyboard.Theory.Loop
import QustomKeyboard.Theory.Memory

/-!
# Decoding bitmaps

A screenshot is taken from the clipboard as a bitmap, and decoded into the
four bytes (red, green, blue and alpha) of every pixel, from the top left to
the bottom right (`decodeBMP`), to be saved as a PNG.

The arithmetic is that of the source, on unsigned integers of 32 bits, that
wrap; an access out of range of the file or of the image is a fault
(`Theory.Memory`). Of the header, two bytes at most are read of every field:
the functions `bmpOffset`, `bmpWidth`, … are the values read.
-/

namespace QustomKeyboard

open Theory

/-- The least size of the header of a bitmap, `MINHEADER`. -/
abbrev minHeader : ℕ := 54

/-- What `decodeBMP` returns, with what it leaves in its parameters. -/
structure Decoded where
  code : UInt32
  w : UInt32
  h : UInt32
  image : List UInt8
  deriving DecidableEq

/-- `std::vector::resize`: the cells there are stay, new ones are zero. -/
def resize (image : List UInt8) (n : ℕ) : List UInt8 :=
  image.take n ++ List.replicate (n - image.length) 0

@[simp] theorem length_resize (image : List UInt8) (n : ℕ) : (resize image n).length = n := by
  rw [resize, List.length_append, List.length_take, List.length_replicate]
  omega

/-- A 16-bit integer, seen as signed, as an unsigned integer of 32 bits. -/
def signedShort (v : UInt16) : UInt32 := v.toInt16.toInt32.toUInt32

/-- The bytes of a line of the bitmap: those of its pixels, up to a multiple of 4. -/
def scanlineBytes (w numChannels : UInt32) : UInt32 :=
  let bytes := w * numChannels
  if bytes % 4 ≠ 0 then bytes / 4 * 4 + 4 else bytes

/-- Where the header `bmp` has the pixels start. -/
def readPixelOffset (bmp : List UInt8) : Except Fault UInt32 := do
  return (← loadAt bmp 10).toUInt32 + 256 * (← loadAt bmp 11).toUInt32

/-- Copy the pixel at `bmpos` in the bitmap to `newpos` in the image. -/
def copyPixel (bmp : List UInt8) (numChannels bmpos newpos : UInt32) (image : List UInt8) :
    Except Fault (List UInt8) := do
  let image ← storeAt image (newpos + 0).toNat (← loadAt bmp (bmpos + 2).toNat) -- red
  let image ← storeAt image (newpos + 1).toNat (← loadAt bmp (bmpos + 1).toNat) -- green
  let image ← storeAt image (newpos + 2).toNat (← loadAt bmp (bmpos + 0).toNat) -- blue
  if numChannels = 3 then storeAt image (newpos + 3).toNat 255
  else storeAt image (newpos + 3).toNat (← loadAt bmp (bmpos + 3).toNat)

/-- The position in the bitmap of the pixel `x` of the line `y`: the last line comes first. -/
def bmpPosition (off w h numChannels : UInt32) (y x : ℕ) : UInt32 :=
  off + (h - .ofNat y - 1) * scanlineBytes w numChannels + numChannels * .ofNat x

/-- The position in the image of the pixel `x` of the line `y`. -/
def imagePosition (w : UInt32) (y x : ℕ) : UInt32 := 4 * .ofNat y * w + 4 * .ofNat x

/-- Copy the first `n` pixels of the line `y`. -/
def copyLine (bmp : List UInt8) (off w h numChannels : UInt32) (y n : ℕ) (image : List UInt8) :
    Except Fault (List UInt8) :=
  forLoop (fun x => copyPixel bmp numChannels (bmpPosition off w h numChannels y x)
    (imagePosition w y x)) n 0 image

/-- Copy all the pixels, line by line. -/
def copyPixels (bmp : List UInt8) (off w h numChannels : UInt32) (image : List UInt8) :
    Except Fault (List UInt8) :=
  forLoop (fun y => copyLine bmp off w h numChannels y w.toNat) h.toNat 0 image

/-- `PrintScreenSaver::decodeBMP`, on a file `bmp`. -/
def decodeBMP (image : List UInt8) (w h : UInt32) (bmp : List UInt8) : Except Fault Decoded :=
  if bmp.length < minHeader then .ok { code := -1, w, h, image }
  else do
    if (← loadAt bmp 0) ≠ 'B'.toUInt8 ∨ (← loadAt bmp 1) ≠ 'M'.toUInt8 then
      return { code := 1, w, h, image }
    let pixeloffset ← readPixelOffset bmp
    let w := (← loadAt bmp 18).toUInt32 + (← loadAt bmp 19).toUInt32 * 256
    let h := signedShort ((← loadAt bmp 22).toUInt16 + (← loadAt bmp 23).toUInt16 * 256)
    let bitCount ← loadAt bmp 28
    if bitCount ≠ 24 ∧ bitCount ≠ 32 then return { code := 2, w, h, image }
    let numChannels := bitCount.toUInt32 / 8
    let dataSize := scanlineBytes w numChannels * h
    if bmp.length < (dataSize + pixeloffset).toNat then return { code := 3, w, h, image }
    let image ← copyPixels bmp pixeloffset w h numChannels (resize image (w * h * 4).toNat)
    return { code := 0, w, h, image }

/-! ## The header -/

/-- The byte `i` of the header. -/
def headerByte (bmp : List UInt8) (i : ℕ) : UInt8 := bmp.getD i 0

/-- The offset of the pixels, as read by `decodeBMP`. -/
def bmpOffset (bmp : List UInt8) : UInt32 :=
  (headerByte bmp 10).toUInt32 + 256 * (headerByte bmp 11).toUInt32

/-- The width, as read by `decodeBMP`. -/
def bmpWidth (bmp : List UInt8) : UInt32 :=
  (headerByte bmp 18).toUInt32 + (headerByte bmp 19).toUInt32 * 256

/-- The height, as read by `decodeBMP`. -/
def bmpHeight (bmp : List UInt8) : UInt32 :=
  signedShort ((headerByte bmp 22).toUInt16 + (headerByte bmp 23).toUInt16 * 256)

/-- The number of channels, as read by `decodeBMP`. -/
def bmpChannels (bmp : List UInt8) : UInt32 := (headerByte bmp 28).toUInt32 / 8

/-- The end of the pixels, as computed by `decodeBMP`. -/
def bmpDataEnd (bmp : List UInt8) : UInt32 :=
  scanlineBytes (bmpWidth bmp) (bmpChannels bmp) * bmpHeight bmp + bmpOffset bmp

theorem loadAt_header {bmp : List UInt8} (hlen : minHeader ≤ bmp.length) {i : ℕ}
    (hi : i < minHeader) : loadAt bmp i = .ok (headerByte bmp i) :=
  loadAt_of_lt (Nat.lt_of_lt_of_le hi hlen) 0

theorem readPixelOffset_of_le {bmp : List UInt8} (hlen : minHeader ≤ bmp.length) :
    readPixelOffset bmp = .ok (bmpOffset bmp) := by
  rw [readPixelOffset, loadAt_header hlen (by decide), loadAt_header hlen (by decide)]
  rfl

/-- `decodeBMP`, on a file that has a header: three checks, and the copy. -/
theorem decodeBMP_of_le {bmp : List UInt8} (hlen : minHeader ≤ bmp.length)
    (image : List UInt8) (w h : UInt32) :
    decodeBMP image w h bmp =
      if headerByte bmp 0 ≠ 'B'.toUInt8 ∨ headerByte bmp 1 ≠ 'M'.toUInt8 then
        .ok { code := 1, w, h, image }
      else if headerByte bmp 28 ≠ 24 ∧ headerByte bmp 28 ≠ 32 then
        .ok { code := 2, w := bmpWidth bmp, h := bmpHeight bmp, image }
      else if bmp.length < (bmpDataEnd bmp).toNat then
        .ok { code := 3, w := bmpWidth bmp, h := bmpHeight bmp, image }
      else
        (copyPixels bmp (bmpOffset bmp) (bmpWidth bmp) (bmpHeight bmp) (bmpChannels bmp)
          (resize image (bmpWidth bmp * bmpHeight bmp * 4).toNat)).map fun image =>
            { code := 0, w := bmpWidth bmp, h := bmpHeight bmp, image } := by
  rw [decodeBMP, if_neg (Nat.not_lt.2 hlen), readPixelOffset_of_le hlen]
  simp only [loadAt_header hlen (show 0 < minHeader by decide),
    loadAt_header hlen (show 1 < minHeader by decide),
    loadAt_header hlen (show 18 < minHeader by decide),
    loadAt_header hlen (show 19 < minHeader by decide),
    loadAt_header hlen (show 22 < minHeader by decide),
    loadAt_header hlen (show 23 < minHeader by decide),
    loadAt_header hlen (show 28 < minHeader by decide)]
  simp only [bind, Except.bind, pure, Except.pure]
  rfl

/-! ## The arithmetic of the source, on natural numbers -/

/-- The bytes of a line of `w` pixels of `c` bytes, rounded up to a multiple of 4. -/
def scanline (w c : ℕ) : ℕ := (w * c + 3) / 4 * 4

theorem toNat_signedShort (v : UInt16) :
    (signedShort v).toNat = if v.toNat < 2 ^ 15 then v.toNat else 2 ^ 32 - 2 ^ 16 + v.toNat := by
  have hv := v.toNat_lt
  have h : (signedShort v).toBitVec = v.toBitVec.signExtend 32 := by simp [signedShort]
  rw [← UInt32.toNat_toBitVec, h, BitVec.toNat_signExtend, BitVec.msb_eq_decide]
  simp
  split <;> split <;> omega

/-- Two bytes, the lower one first. -/
theorem toNat_twoBytes (a b : UInt8) :
    (a.toUInt32 + b.toUInt32 * 256).toNat = a.toNat + 256 * b.toNat := by
  have ha := a.toNat_lt
  have hb := b.toNat_lt
  simp
  omega

theorem twoBytes_lt (a b : UInt8) : a.toNat + 256 * b.toNat < 2 ^ 16 := by
  have ha := a.toNat_lt
  have hb := b.toNat_lt
  omega

theorem toNat_bmpOffset (bmp : List UInt8) :
    (bmpOffset bmp).toNat = (headerByte bmp 10).toNat + 256 * (headerByte bmp 11).toNat := by
  rw [bmpOffset, UInt32.mul_comm, toNat_twoBytes]

theorem toNat_bmpWidth (bmp : List UInt8) :
    (bmpWidth bmp).toNat = (headerByte bmp 18).toNat + 256 * (headerByte bmp 19).toNat :=
  toNat_twoBytes _ _

theorem toNat_bmpOffset_lt (bmp : List UInt8) : (bmpOffset bmp).toNat < 2 ^ 16 := by
  rw [toNat_bmpOffset]
  exact twoBytes_lt _ _

theorem toNat_bmpWidth_lt (bmp : List UInt8) : (bmpWidth bmp).toNat < 2 ^ 16 := by
  rw [toNat_bmpWidth]
  exact twoBytes_lt _ _

theorem toNat_bmpHeight (bmp : List UInt8) :
    (bmpHeight bmp).toNat =
      if (headerByte bmp 22).toNat + 256 * (headerByte bmp 23).toNat < 2 ^ 15 then
        (headerByte bmp 22).toNat + 256 * (headerByte bmp 23).toNat
      else 2 ^ 32 - 2 ^ 16 + ((headerByte bmp 22).toNat + 256 * (headerByte bmp 23).toNat) := by
  have h₁ := (headerByte bmp 22).toNat_lt
  have h₂ := (headerByte bmp 23).toNat_lt
  have hv : ((headerByte bmp 22).toUInt16 + (headerByte bmp 23).toUInt16 * 256).toNat =
      (headerByte bmp 22).toNat + 256 * (headerByte bmp 23).toNat := by
    simp
    omega
  rw [bmpHeight, toNat_signedShort, hv]

theorem toNat_scanlineBytes {w c : UInt32} (hw : w.toNat < 2 ^ 16) (hc : c.toNat ≤ 4) :
    (scanlineBytes w c).toNat = scanline w.toNat c.toNat := by
  have hwc : w.toNat * c.toNat ≤ w.toNat * 4 := Nat.mul_le_mul_left _ hc
  have hmul : (w * c).toNat = w.toNat * c.toNat := by
    rw [UInt32.toNat_mul, Nat.mod_eq_of_lt (by omega)]
  have hmod : w * c % 4 ≠ 0 ↔ w.toNat * c.toNat % 4 ≠ 0 := by
    rw [← hmul, Ne, ← UInt32.toNat_inj]
    simp
  simp only [scanlineBytes, scanline, hmod]
  split
  · simp [hmul]
    omega
  · rw [hmul]
    omega

/-- The position of a pixel in the bitmap, which may wrap. -/
theorem toNat_bmpPosition (off : UInt32) {w h c : UInt32} {y : ℕ} (hw : w.toNat < 2 ^ 16)
    (hc : c.toNat ≤ 4) (hy : y < h.toNat) (x : ℕ) :
    (bmpPosition off w h c y x).toNat =
      (off.toNat + (h.toNat - 1 - y) * scanline w.toNat c.toNat + c.toNat * x) % 2 ^ 32 := by
  have hline : (h - .ofNat y - 1).toNat = h.toNat - 1 - y := by
    have hh := h.toNat_lt
    have hofNat : (UInt32.ofNat y).toNat = y := by
      rw [UInt32.toNat_ofNat', Nat.mod_eq_of_lt (by omega)]
    simp [hofNat, UInt32.toNat_sub]
    omega
  simp [bmpPosition, hline, toNat_scanlineBytes hw hc]

/-- The position of a pixel in the image, which may wrap. -/
theorem toNat_imagePosition (w : UInt32) (y x : ℕ) :
    (imagePosition w y x).toNat = (4 * (y * w.toNat + x)) % 2 ^ 32 := by
  simp [imagePosition, Nat.mul_add, Nat.mul_assoc]

/-- The end of the pixels in the bitmap, which may wrap. -/
theorem toNat_bmpDataEnd {bmp : List UInt8} (hc : (bmpChannels bmp).toNat ≤ 4) :
    (bmpDataEnd bmp).toNat =
      ((bmpOffset bmp).toNat + (bmpHeight bmp).toNat *
        scanline (bmpWidth bmp).toNat (bmpChannels bmp).toNat) % 2 ^ 32 := by
  simp [bmpDataEnd, toNat_scanlineBytes (toNat_bmpWidth_lt bmp) hc, Nat.mul_comm, Nat.add_comm]

/-- The size of the image, which may wrap. -/
theorem toNat_imageSize (w h : UInt32) :
    (w * h * 4).toNat = (4 * w.toNat * h.toNat) % 2 ^ 32 := by
  simp [Nat.mul_comm, Nat.mul_assoc]

end QustomKeyboard
