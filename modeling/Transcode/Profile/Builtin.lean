import Transcode.Profile.Registry

/-!
# The built-in profiles

Three encoders, with the parameters they share given once.
-/

namespace Transcode

namespace Builtin

/-- A choice that is shown as the value it stands for. -/
def plain (value : String) : Choice := ⟨value, value⟩

/-! ## Shared parameters -/

def scale : Parameter where
  key := Key.scale
  label := "Scale"
  help := "Resize video."
  kind := .scale
  flag := some "scale"
  context := .videoFilter
  resettable := true
  default := some .dontChange

def scaleFlags : Parameter where
  key := "scale_flags"
  label := "Scaling algorithm"
  help := "Scaling algorithm used when resizing (bicubic, bilinear, lanczos, spline, neighbor)."
  kind := .direct (.oneOf ["bicubic", "bilinear", "lanczos", "spline", "neighbor", "area"])
  flag := some "flags"
  context := .scaleFilterParameter
  resettable := true
  default := some .dontChange

def fps : Parameter where
  key := "fps"
  label := "FPS"
  help := "Enter desired FPS (1-240)."
  kind := .direct (.float (.ofInt64 1) (.ofInt64 240))
  flag := some "fps"
  context := .videoFilter
  resettable := true
  default := some .dontChange

def pixelFormat : Parameter where
  key := "pixel_format"
  label := "Pixel Format"
  help := "Pixel Format. Specifies the color sampling and bit depth of the video " ++
    "(e.g. yuv420p for compatibility)."
  kind := .choice [
    ⟨"yuv420p (8 bit. Most compatible)", "yuv420p"⟩,
    ⟨"yuv420p10le (10 bit 4:2:0)", "yuv420p10le"⟩,
    ⟨"yuv422p (4:2:2)", "yuv422p"⟩,
    ⟨"yuv444p (4:4:4)", "yuv444p"⟩]
  flag := some "-pix_fmt"
  context := .videoCodecOption
  resettable := true
  default := some (.text "yuv420p")

def passes : Parameter where
  key := Key.passes
  label := "Passes"
  help := "Select encoding mode: single-pass (faster) or two-pass (better quality/size)."
  kind := .choice [plain "One-Pass", plain "Two-Pass"]
  context := .metadata
  default := some (.text "Two-Pass")

def volume : Parameter where
  key := "volume"
  label := "Volume"
  help := "Volume adjustment (e.g. 1.5 or 3dB)."
  kind := .direct .any
  flag := some "volume"
  context := .audioFilter
  resettable := true
  default := some .dontChange

def audioCodec : Parameter where
  key := "audio_codec"
  label := "Audio Codec"
  help := "Select audio codec"
  kind := .choice [plain "libopus", plain "libvorbis", plain "aac"]
  flag := some "-c:a"
  context := .audioCodecSelector
  default := some (.text "libopus")

def audioBitrate : Parameter where
  key := "audio_bitrate"
  label := "Audio Bitrate"
  help := "Enter audio bitrate in kbps (6-510), e.g. 128 or 128k."
  kind := .direct (.kbps 6 510)
  flag := some "-b:a"
  context := .audioCodecOption
  unit := some "k"
  default := some (.int 128)

/-- The container, with the formats an encoder's streams may be put into. -/
def container (formats : List String) (default : String) : Parameter where
  key := Key.container
  label := "Container"
  help := "Select container:"
  kind := .choice (formats.map plain)
  context := .metadata
  default := some (.text default)

/-- The constant rate factor, the measure of quality. -/
def crf (help : String) (max default : Int64) : Parameter where
  key := "crf"
  label := "CRF"
  help := help
  kind := .direct (.int 0 max)
  flag := some "-crf"
  context := .videoCodecOption
  default := some (.int default)

/-! ## VP9 -/

def vp9 : Profile where
  name := "vp9"
  videoCodec := "libvpx-vp9"
  vendorFlag := none
  evenDimensions := true
  qualityKey := "crf"
  passStyle := .flag
  parameters := [
    crf "Quality control value. 0-63 (lower = better). 35 is good." 63 35,
    { key := "video_bitrate"
      label := "Video Bitrate cap"
      help := "Target video bitrate. 0 = constant quality (recommended with CRF), or e.g. 2M."
      kind := .direct .any
      flag := some "-b:v"
      context := .videoCodecOption
      resettable := true
      default := some (.int 0) },
    scale,
    scaleFlags,
    fps,
    { key := "deadline"
      label := "Deadline (Compression efficiency)"
      help := "Deadline (Compression efficiency)"
      kind := .choice [
        ⟨"good: the default and recommended for most applications", "good"⟩,
        ⟨"best: recommended if you have lots of time and want the best compression efficiency",
          "best"⟩,
        ⟨"realtime: recommended for live / fast encoding", "realtime"⟩]
      flag := some "-deadline"
      context := .videoCodecOption
      default := some (.text "good") },
    { key := "cpu_used"
      label := "CPU used (speed)"
      help := "Encoder speed. 0-8 (lower = slower, better)."
      kind := .direct (.int 0 8)
      flag := some "-cpu-used"
      context := .videoCodecOption
      resettable := true
      default := some .dontChange },
    pixelFormat,
    passes,
    volume,
    audioCodec,
    audioBitrate,
    container ["webm", "mkv", "mp4"] "webm"]

/-! ## AV1 -/

def av1 : Profile where
  name := "svt-av1"
  videoCodec := "libsvtav1"
  vendorFlag := some "-svtav1-params"
  evenDimensions := true
  qualityKey := "crf"
  passStyle := .flag
  parameters := [
    crf "Quality control value. 0-63 (lower = better). 28 is good." 63 28,
    scale,
    scaleFlags,
    fps,
    { key := "preset"
      label := "Preset (Compression efficiency)"
      help := "Compression efficiency. 0-13. Lower is better.\n" ++
        "Preset 13 is only meant for debugging and running fast convex-hull encoding"
      kind := .direct (.int 0 13)
      flag := some "-preset"
      context := .videoCodecOption
      default := some (.int 8) },
    { key := "tune"
      label := "Tune"
      help := "0 = visual quality (VQ), 1 = PSNR, 2 = SSIM."
      kind := .direct (.oneOf ["0", "1", "2"])
      flag := some "tune"
      context := .vendorSpecialOption
      resettable := true
      default := some .dontChange },
    { key := "film_grain"
      label := "Film grain synthesis"
      help := "Film grain denoising/synthesis strength. 0-50 (0 = off)."
      kind := .direct (.int 0 50)
      flag := some "film-grain"
      context := .vendorSpecialOption
      resettable := true
      default := some .dontChange },
    pixelFormat,
    passes,
    volume,
    audioCodec,
    audioBitrate,
    container ["mkv", "mp4", "webm"] "mkv"]

/-! ## HEVC -/

def hevc : Profile where
  name := "hevc"
  videoCodec := "libx265"
  vendorFlag := some "-x265-params"
  evenDimensions := true
  qualityKey := "crf"
  passStyle := .vendor
  parameters := [
    crf "Quality control value. 0-51 (lower = better). 23 is good." 51 23,
    scale,
    scaleFlags,
    fps,
    { key := "preset"
      label := "Preset (Compression efficiency)"
      help := "Compression efficiency"
      kind := .choice [plain "ultrafast", plain "superfast", plain "veryfast", plain "faster",
        plain "fast", plain "medium", plain "slow", plain "slower", plain "veryslow",
        plain "placebo"]
      flag := some "-preset"
      context := .videoCodecOption
      default := some (.text "medium") },
    { key := "aq_mode"
      label := "Adaptive quantization mode"
      help := "x265 aq-mode. 0 = off, 1 = variance, 2 = auto-variance, " ++
        "3 = auto-variance biased to dark scenes, 4 = edge."
      kind := .direct (.oneOf ["0", "1", "2", "3", "4"])
      flag := some "aq-mode"
      context := .vendorSpecialOption
      resettable := true
      default := some .dontChange },
    { key := "psy_rd"
      label := "Psycho-visual rate distortion"
      help := "x265 psy-rd strength. 0.0-5.0."
      kind := .direct (.float (.ofInt64 0) (.ofInt64 5))
      flag := some "psy-rd"
      context := .vendorSpecialOption
      resettable := true
      default := some .dontChange },
    pixelFormat,
    passes,
    volume,
    audioCodec,
    audioBitrate,
    container ["mp4", "mkv", "mov", "ts"] "mp4"]

end Builtin

/-- The profiles that come with the program, in the order of the menu. -/
def builtinProfiles : List Profile :=
  [Builtin.vp9, Builtin.av1, Builtin.hevc]

def Registry.builtin : Registry := ⟨builtinProfiles⟩

theorem ofProfiles_builtinProfiles :
    Registry.ofProfiles builtinProfiles = .ok Registry.builtin := by
  have h : Registry.profilesFault? [] builtinProfiles = none := by decide +kernel
  simp [Registry.ofProfiles, h, Registry.builtin]

end Transcode
