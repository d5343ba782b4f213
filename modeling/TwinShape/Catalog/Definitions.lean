import TwinShape.Catalog.Cells
import TwinShape.Catalog.Columns
import TwinShape.Catalog.Components
import TwinShape.Catalog.Layout
import TwinShape.Catalog.Options
import TwinShape.Catalog.Settings

namespace TwinShape.Catalog

def definitions : List Definition := layout ++ options ++ columns ++ components ++ cells ++ settings

def registry (engines : Engines) : Registry := definitions.foldl Registry.put (.empty engines)

end TwinShape.Catalog
