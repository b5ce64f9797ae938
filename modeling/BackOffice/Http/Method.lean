/-!
# HTTP methods

A method is a token: at least one letter, digit or one of fifteen marks.  Its letters are told
apart by case, so `get` is not `GET`.
-/
namespace BackOffice

structure Method where
  name : String
deriving DecidableEq, Repr

namespace Method

def get : Method := ⟨"GET"⟩
def post : Method := ⟨"POST"⟩
def put : Method := ⟨"PUT"⟩
def patch : Method := ⟨"PATCH"⟩
def delete : Method := ⟨"DELETE"⟩

def isTokenChar (c : Char) : Bool :=
  c.isAlphanum || "!#$%&'*+-.^_\x60|~".toList.contains c

def parse (s : String) : Option Method :=
  if !s.toList.isEmpty && s.toList.all isTokenChar then some ⟨s⟩ else none

/-- The methods that change something on the server. -/
def isMutating (m : Method) : Bool := m = post || m = put || m = patch || m = delete

end Method
end BackOffice
