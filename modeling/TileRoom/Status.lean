/-! The status of a player: a set of flags, one bit for each. -/

namespace TileRoom

structure Status where
  bits : UInt8
deriving DecidableEq

namespace Status

def none : Status := ⟨0⟩
def typing : Status := ⟨1⟩
def connected : Status := ⟨2⟩
def shouting : Status := ⟨4⟩

def union (left right : Status) : Status := ⟨left.bits ||| right.bits⟩

def inter (left right : Status) : Status := ⟨left.bits &&& right.bits⟩

def complement (status : Status) : Status := ⟨~~~status.bits⟩

def contains (status flags : Status) : Bool :=
  status.inter flags = flags

def put (status flags : Status) (present : Bool) : Status :=
  if present then status.union flags else status.inter flags.complement

def ofFrame (isConnected isTyping : Bool) : Status :=
  (none.put connected isConnected).put typing isTyping

def named : List (Status × String) :=
  [(connected, "connected"), (typing, "typing"), (shouting, "shouting")]

def text (status : Status) : String :=
  match (named.filter fun (flag, _) => status.contains flag).map (·.2) with
  | [] => "none"
  | names => String.intercalate "|" names

end Status

end TileRoom
