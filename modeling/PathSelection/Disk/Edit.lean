import PathSelection.Disk.View

namespace PathSelection

namespace Disk

def put (d : Disk) (p : RealPath) (e : Entry) : Disk :=
  ⟨(p, e) :: d.entries.filter fun q => q.1 != p⟩

def erase (d : Disk) (p : RealPath) : Disk :=
  ⟨d.entries.filter fun q => !p.isPrefixOf q.1⟩

def makeDirs (d : Disk) (p : RealPath) : Disk :=
  (List.range (p.length + 1)).foldl
    (fun d n => if (d.get? (p.take n)).isNone then d.put (p.take n) (.dir true) else d) d

def create (d : Disk) (p : RealPath) (e : Entry) : Disk := (d.makeDirs p.dropLast).put p e

end Disk

namespace View

def target (v : View) (t : Text) : RealPath := (v.resolved t).names

/-- The place of the entry itself, which may be a link. -/
def entryPlace (v : View) (t : Text) : RealPath :=
  let steps := Step.ofPath t
  let parent := (settle v.disk [] (v.origin t) steps.dropLast).1
  (steps.getLast?.getD .here).lexical parent

def write (v : View) (t : Text) (content : ByteArray) : View :=
  { v with disk := v.disk.create (v.target t) (.file content) }

def makeDirs (v : View) (t : Text) : View := { v with disk := v.disk.makeDirs (v.target t) }

def link (v : View) (t target : Text) : View :=
  { v with disk := v.disk.create (v.entryPlace t) (.link target) }

def remove (v : View) (t : Text) : View := { v with disk := v.disk.erase (v.entryPlace t) }

end View
end PathSelection
