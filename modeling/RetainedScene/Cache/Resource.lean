/-!
# Shared resources

Bitmaps, patches, shaders, paths and layers are shared between recordings.  A recording holds
only their ids; how long a resource lives is decided by the references counted in the cache.
-/

namespace RetainedScene

/-- The identity of a shared resource, its place in the order of registration. -/
structure ResourceId where
  raw : Nat
  deriving DecidableEq, Inhabited

def ResourceId.text (id : ResourceId) : String := s!"res#{id.raw}"

inductive ResourceKind where
  | bitmap
  | patch
  | shader
  | path
  | layer
  deriving DecidableEq, Inhabited

namespace ResourceKind

def all : List ResourceKind := [bitmap, patch, shader, path, layer]

/-- The name of one resource of the kind. -/
def name : ResourceKind → String
  | bitmap => "Bitmap"
  | patch => "Patch"
  | shader => "Shader"
  | path => "Path"
  | layer => "Layer"

/-- The heading of the kind in the usage report. -/
def label : ResourceKind → String
  | bitmap => "bitmaps"
  | patch => "patches"
  | shader => "shaders"
  | path => "paths"
  | layer => "layers"

end ResourceKind

end RetainedScene
