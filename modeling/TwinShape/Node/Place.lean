namespace TwinShape

structure Place where
  segments : List String
deriving DecidableEq

namespace Place

def root : Place := ⟨[]⟩

def child (p : Place) (segment : String) : Place := ⟨p.segments ++ [segment]⟩

def item (p : Place) (segment : String) (i : Nat) : Place := (p.child segment).child (toString i)

def property (p : Place) (name : String) : Place := (p.child "properties").child name

-- Names are not escaped, so different places may have one text.
def text (p : Place) : String :=
  match p.segments with
  | [] => "/"
  | segments => String.join (segments.map ("/" ++ ·))

end Place
end TwinShape
