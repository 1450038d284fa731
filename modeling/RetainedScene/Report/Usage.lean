import RetainedScene.Shared

/-!
# The usage report

What the shared resources of a scene take up, by kind and in all, and the operations walked
last.  Nothing is said of operations or resources while no operation has been walked.

Bytes are added up in a word; resources that take up more cannot be reported.
-/

namespace RetainedScene

/-- The bytes of all the entries. -/
def CacheEntry.totalBytes (entries : List CacheEntry) : Nat :=
  entries.foldr (fun entry total => entry.bytes + total) 0

namespace Cache

/-- The count and the bytes of the resources of a kind. -/
def usage (c : Cache) (kind : ResourceKind) : Nat × Nat :=
  let entries := c.live.filter (·.kind = kind)
  (entries.length, CacheEntry.totalBytes entries)

def totalBytes (c : Cache) : Nat := CacheEntry.totalBytes c.live

/-- The greatest sum of bytes. -/
def largestTotal : Nat := 0xffffffffffffffff

def usageLines (c : Cache) : List String :=
  let kindLine (kind : ResourceKind) : String :=
    let (count, bytes) := c.usage kind
    s!"  {Text.padRight 8 kind.label} {Text.padLeft 5 (toString count)} ({bytes} bytes)"
  [s!"ResourceCache: {c.size} entries"] ++ ResourceKind.all.map kindLine
    ++ [s!"  total {c.totalBytes} bytes"]

end Cache

namespace Shared

def usageText (c : Shared) : Except Fatal String :=
  if c.cache.totalBytes ≤ Cache.largestTotal then
    .ok (Text.unlines (c.cache.usageLines ++ [s!"  functors {c.functors.toNat}"]))
  else .error .overflow

/-- The operations walked last and the usage of resources. -/
def recentReport (c : Shared) : Report :=
  if c.recent.isEmpty then {}
  else .ofText "\nRecent DisplayList operations\n" ++ c.recent.report
    ++ .ofResult (c.usageText.map fun usage => "\nCaches:\n" ++ usage ++ "\n")

end Shared

end RetainedScene
