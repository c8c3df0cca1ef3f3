import QustomKeyboard.Screenshot.Bitmap
import QustomKeyboard.Theory.Bytes

/-!
# The pixel offset of a screenshot

The clipboard holds a *packed DIB*: an info header, masks and colours, and the
pixels. `DoSave` makes a bitmap file of it (`clipboardBmp`), putting a file
header in front, the field `bfOffBits` of which tells where the pixels start.

That field has 32 bits, but the decoder reads the lower 16 of them only. So the
two agree iff the offset, wrapped at 2³² as the source computes it, is less than
2¹⁶ (`readPixelOffset_clipboardBmp_iff`).
-/

namespace QustomKeyboard

open Theory

/-- `sizeof(BITMAPINFOHEADER)`. -/
abbrev sizeofBitmapInfoHeader : ℕ := 40

/-- `sizeof(BITMAPFILEHEADER)`. -/
abbrev sizeofBitmapFileHeader : ℕ := 14

/-- `sizeof(RGBQUAD)`. -/
abbrev sizeofRgbQuad : ℕ := 4

/-- `BITMAPINFOHEADER`, signed fields by their bits. -/
structure BitmapInfoHeader where
  biSize : UInt32
  biWidth : UInt32
  biHeight : UInt32
  biPlanes : UInt16
  biBitCount : UInt16
  biCompression : UInt32
  biSizeImage : UInt32
  biXPelsPerMeter : UInt32
  biYPelsPerMeter : UInt32
  biClrUsed : UInt32
  biClrImportant : UInt32

namespace BitmapInfoHeader

/-- The bytes of the header. -/
def toBytes (hdr : BitmapInfoHeader) : List UInt8 :=
  toLe 4 hdr.biSize.toNat ++ toLe 4 hdr.biWidth.toNat ++ toLe 4 hdr.biHeight.toNat ++
    toLe 2 hdr.biPlanes.toNat ++ toLe 2 hdr.biBitCount.toNat ++ toLe 4 hdr.biCompression.toNat ++
    toLe 4 hdr.biSizeImage.toNat ++ toLe 4 hdr.biXPelsPerMeter.toNat ++
    toLe 4 hdr.biYPelsPerMeter.toNat ++ toLe 4 hdr.biClrUsed.toNat ++
    toLe 4 hdr.biClrImportant.toNat

@[simp] theorem length_toBytes (hdr : BitmapInfoHeader) :
    hdr.toBytes.length = sizeofBitmapInfoHeader := by
  simp [toBytes]

/-- The bytes of the bit masks behind the header. -/
def maskBytes (hdr : BitmapInfoHeader) : ℕ :=
  if hdr.biSize.toNat = sizeofBitmapInfoHeader ∧ 8 < hdr.biBitCount then
    if hdr.biCompression = 3 then 3 * sizeofRgbQuad -- `BI_BITFIELDS`
    else if hdr.biCompression = 6 then 4 * sizeofRgbQuad -- `BI_ALPHABITFIELDS`
    else 0
  else 0

/-- The bytes of the colour table behind the masks. -/
def colorTableBytes (hdr : BitmapInfoHeader) : ℕ :=
  if 0 < hdr.biClrUsed then hdr.biClrUsed.toNat * sizeofRgbQuad
  else if hdr.biBitCount ≤ 8 then sizeofRgbQuad <<< hdr.biBitCount.toNat
  else 0

end BitmapInfoHeader

/-- `PrintScreenSaver::GetPixelDataOffsetForPackedDIB`. -/
def getPixelDataOffsetForPackedDIB (hdr : BitmapInfoHeader) : Int32 :=
  let offsetExtra : Int32 := .ofNat hdr.maskBytes + .ofNat hdr.colorTableBytes
  hdr.biSize.toInt32 + offsetExtra

/-- `BITMAPFILEHEADER`, but for its type and its reserved fields. -/
structure BitmapFileHeader where
  bfSize : UInt32
  bfOffBits : UInt32

/-- The bytes of the file header. -/
def BitmapFileHeader.toBytes (hdr : BitmapFileHeader) : List UInt8 :=
  toLe 2 0x4D42 ++ toLe 4 hdr.bfSize.toNat ++ toLe 2 0 ++ toLe 2 0 ++ toLe 4 hdr.bfOffBits.toNat

/-- What the clipboard holds: at least an info header, as asserted by the source. -/
structure PackedDib where
  header : BitmapInfoHeader
  rest : List UInt8

namespace PackedDib

/-- The bytes on the clipboard. -/
def bytes (dib : PackedDib) : List UInt8 := dib.header.toBytes ++ dib.rest

/-- The file header made by `PrintScreenSaver::DoSave`. -/
def fileHeader (dib : PackedDib) : BitmapFileHeader where
  bfSize := .ofNat (sizeofBitmapFileHeader + dib.bytes.length)
  bfOffBits := .ofNat sizeofBitmapFileHeader + (getPixelDataOffsetForPackedDIB dib.header).toUInt32

/-- The file `DoSave` gives to the decoder. -/
def clipboardBmp (dib : PackedDib) : List UInt8 := dib.fileHeader.toBytes ++ dib.bytes

end PackedDib

/-! ## The offset written and read -/

/-- The pixel offset in a DIB, before the arithmetic of the source wraps. -/
def BitmapInfoHeader.pixelOffset (hdr : BitmapInfoHeader) : ℕ :=
  hdr.biSize.toNat + (hdr.maskBytes + hdr.colorTableBytes)

theorem getPixelDataOffset_eq (hdr : BitmapInfoHeader) :
    getPixelDataOffsetForPackedDIB hdr = .ofNat hdr.pixelOffset := by
  have hsize : hdr.biSize.toInt32 = .ofNat hdr.biSize.toNat := by
    rw [← UInt32.toInt32_ofNat', UInt32.ofNat_toNat]
  rw [BitmapInfoHeader.pixelOffset, Int32.ofNat_add, Int32.ofNat_add, ← hsize]
  rfl

theorem toNat_bfOffBits (dib : PackedDib) :
    dib.fileHeader.bfOffBits.toNat =
      (sizeofBitmapFileHeader + dib.header.pixelOffset) % 2 ^ 32 := by
  rw [PackedDib.fileHeader, getPixelDataOffset_eq, Int32.toUInt32_ofNat', ← UInt32.ofNat_add,
    UInt32.toNat_ofNat']

theorem minHeader_le_clipboardBmp (dib : PackedDib) : minHeader ≤ dib.clipboardBmp.length := by
  simp [PackedDib.clipboardBmp, BitmapFileHeader.toBytes, PackedDib.bytes, minHeader,
    sizeofBitmapInfoHeader]
  omega

/-- The decoder reads the lower half of the offset. -/
theorem toNat_bmpOffset_clipboardBmp (dib : PackedDib) :
    (bmpOffset dib.clipboardBmp).toNat =
      (sizeofBitmapFileHeader + dib.header.pixelOffset) % 2 ^ 16 := by
  have hbytes : headerByte dib.clipboardBmp 10 = .ofNat dib.fileHeader.bfOffBits.toNat ∧
      headerByte dib.clipboardBmp 11 = .ofNat (dib.fileHeader.bfOffBits.toNat / 256) :=
    ⟨rfl, rfl⟩
  rw [toNat_bmpOffset, hbytes.1, hbytes.2, toNat_bfOffBits, UInt8.toNat_ofNat', UInt8.toNat_ofNat']
  omega

/-- The offset read by the decoder is the one of the pixels, iff this one, wrapped
    at 2³², is less than 2¹⁶. -/
theorem readPixelOffset_clipboardBmp_iff (dib : PackedDib) :
    (∃ off, readPixelOffset dib.clipboardBmp = .ok off ∧ (off.toNat : ℤ) =
      sizeofBitmapFileHeader + (getPixelDataOffsetForPackedDIB dib.header).toInt) ↔
      (sizeofBitmapFileHeader + dib.header.pixelOffset) % 2 ^ 32 < 2 ^ 16 := by
  have hread := readPixelOffset_of_le (minHeader_le_clipboardBmp dib)
  have hoff := toNat_bmpOffset_clipboardBmp dib
  simp only [hread, Except.ok.injEq, exists_eq_left', getPixelDataOffset_eq, Int32.toInt_ofNat',
    hoff, Int.bmod, Int32.size, sizeofBitmapFileHeader]
  split
  all_goals omega

/-- A bitmap of one pixel in 24 bits that declares 20000 colours. -/
def coloredDib : PackedDib where
  header :=
    { biSize := 40
      biWidth := 1
      biHeight := 1
      biPlanes := 1
      biBitCount := 24
      biCompression := 0
      biSizeImage := 0
      biXPelsPerMeter := 0
      biYPelsPerMeter := 0
      biClrUsed := 20000
      biClrImportant := 0 }
  rest := List.replicate (4 * 20000 + 4) 0

/-- The pixels start at 80054, and are read from 14518 on. -/
theorem readPixelOffset_coloredDib :
    sizeofBitmapFileHeader + (getPixelDataOffsetForPackedDIB coloredDib.header).toInt = 80054 ∧
      readPixelOffset coloredDib.clipboardBmp = .ok 14518 := by
  refine ⟨by decide, ?_⟩
  rw [readPixelOffset_of_le (minHeader_le_clipboardBmp _), Except.ok.injEq, ← UInt32.toNat_inj,
    toNat_bmpOffset_clipboardBmp]
  decide

end QustomKeyboard
