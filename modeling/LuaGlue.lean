import LuaGlue.Main
import LuaGlue.Proofs.CType.Declared
import LuaGlue.Proofs.CType.Parts
import LuaGlue.Proofs.CType.Spacing
import LuaGlue.Proofs.Callback.Room
import LuaGlue.Proofs.Callback.Signature
import LuaGlue.Proofs.Callback.Words
import LuaGlue.Proofs.Classifier.Answers
import LuaGlue.Proofs.Classifier.Constness
import LuaGlue.Proofs.Classifier.Inert
import LuaGlue.Proofs.Classifier.Notation
import LuaGlue.Proofs.Constants.Members
import LuaGlue.Proofs.EnumValue.Resolved
import LuaGlue.Proofs.Function.Contract
import LuaGlue.Proofs.Function.Gaps
import LuaGlue.Proofs.Function.Locals
import LuaGlue.Proofs.Function.Respelling
import LuaGlue.Proofs.Function.Suffixes
import LuaGlue.Proofs.Generate.Braces
import LuaGlue.Proofs.Generate.Copies
import LuaGlue.Proofs.Generate.Rounds
import LuaGlue.Proofs.Generate.StubNames
import LuaGlue.Proofs.Interface.Variadic
import LuaGlue.Proofs.Keep.Declared
import LuaGlue.Proofs.Marshal.Bounds
import LuaGlue.Proofs.Marshal.Faults
import LuaGlue.Proofs.Marshal.Nesting
import LuaGlue.Proofs.Naming.SnakeCase
import LuaGlue.Proofs.Userdata.Anchors
import LuaGlue.Proofs.Userdata.Counts
import LuaGlue.Proofs.Userdata.Dispatch
