import TypeScribe.Layout.Typeset
import TypeScribe.Script.Unit

/-!
# Conversion

`convert` writes one compilation unit as TypeScript: the script of the unit is typeset under the
configuration by a writer with its margins.
-/
namespace TypeScribe
set_option autoImplicit false

def Config.margins (config : Config) : Margins :=
  { indent := config.indent, endOfLine := config.endOfLine }

/-- The writer with which a conversion begins. -/
def Config.writer (config : Config) : Writer := { margins := config.margins }

def convert (u : CompilationUnit) (config : Config) (classPath : ClassIndex) :
    Except EmitError String :=
  (typeset config config.writer (u.script config.wrapPackageNamespace classPath)).map Writer.written

/-- A configuration and a class path to convert units with. -/
structure Converter where
  config : Config := {}
  classPath : ClassIndex

def Converter.convert (converter : Converter) (u : CompilationUnit) : Except EmitError String :=
  TypeScribe.convert u converter.config converter.classPath

end TypeScribe
