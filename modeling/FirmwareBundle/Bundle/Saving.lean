import FirmwareBundle.Bundle.Builder
import FirmwareBundle.Files.System
/-!
# Bundles from files, in files

## Main definitions

* `FirmwareBundle.loadSources` — the payloads of a builder, read from files.
* `FirmwareBundle.Bundle.save` — a bundle written to a file.
* `FirmwareBundle.writeBundle` — the two with the packing between them.
-/

namespace FirmwareBundle

/-- A payload that was read: its `kind`, its `path`, and its contents. -/
structure LoadedImage where
  kind : PartitionKind
  path : String
  data : ByteArray

/-- Reads images from `files` up to the first that cannot be read, and gives the error of that
one. -/
def loadImages (files : FileSystem) :
    List (PartitionKind × String) → List LoadedImage × Option BundleError
  | [] => ([], none)
  | (kind, path) :: rest =>
    match files.read path with
    | .error cause => ([], some (.missingInput path cause))
    | .ok data =>
      let (images, e) := loadImages files rest
      (⟨kind, path, data⟩ :: images, e)

/-- The builder `b` with the contents of `images` as payloads. -/
def Builder.load (b : Builder) (images : List LoadedImage) : Builder :=
  images.foldl (fun b image => { b with payloads := b.payloads.put image.kind image.data }) b

/-- Writes the bundle `b` to the file at `path`, all at once or not at all. -/
def Bundle.save (files : FileSystem) (path : String) (b : Bundle) : Except BundleError FileSystem :=
  (files.replace path b.toBytes).mapError (.write path)

/-- The writing of a bundle: the images `loaded`, the entries `packed`, the `files` after it, and
its manifest or an error. -/
structure Writing where
  loaded : List LoadedImage
  packed : List PartitionSpec
  files : FileSystem
  result : Except BundleError Manifest

/-- Reads the images in `sources`, in the order of flash memory, packs them with those that
`builder` has already, and writes the bundle to the file at `output`. -/
def writeBundle (files : FileSystem) (sources : Slots String) (builder : Builder)
    (output : String) : Writing :=
  match loadImages files sources.toList with
  | (loaded, some e) => ⟨loaded, [], files, .error e⟩
  | (loaded, none) =>
    match (builder.load loaded).run with
    | (packed, .error e) => ⟨loaded, packed, files, .error e⟩
    | (packed, .ok bundle) =>
      match bundle.save files output with
      | .error e => ⟨loaded, packed, files, .error e⟩
      | .ok files => ⟨loaded, packed, files, .ok bundle.manifest⟩

end FirmwareBundle
